import SmallRpc.Moves
import SmallRpc.FirstWins

/-! What a program hands to a server before `start`: the maps it is kept in, what a request
finds in them, and what the destructor deletes in the end. -/
namespace SmallRpc
open FirstWins Runs

structure ServiceDescriptor where
  name : Bytes
  methods : List Bytes
  deriving DecidableEq, Repr

def Protocol.name : Protocol → Bytes
  | .simple => ascii "simple_proto"
  | .http => ascii "HTTP"

/-- The program's objects behind their addresses. -/
structure Objects where
  protocol : Nat → Protocol
  descriptor : Nat → ServiceDescriptor

inductive Registrable where
  | protocol (proto : Nat)
  | service (service : Nat)
  deriving DecidableEq, Repr

/-- Protocols and services have names of their own. -/
inductive RegisteredName where
  | protocol (name : Bytes)
  | service (name : Bytes)
  deriving DecidableEq, Repr

/-- The maps are lists of their pairs, in the order in which these came. A method is told by
its place in the descriptor of its service. -/
structure Registry where
  protocols : List Nat := []
  name2protocols : List (Bytes × Nat) := []
  services : List (Bytes × Nat × List (Bytes × Nat)) := []
  deriving DecidableEq, Repr

namespace Registry

def addProtocol (o : Objects) (r : Registry) (proto : Nat) : Bool × Registry :=
  match r.name2protocols.lookup (o.protocol proto).name with
  | some _ => (false, r)
  | none => (true, { r with
      name2protocols := r.name2protocols ++ [((o.protocol proto).name, proto)]
      protocols := r.protocols ++ [proto] })

/-- The loop of `add_service`; where it gives up, what it has put in stays. -/
def addMethods : List Bytes → Nat → List (Bytes × Nat) → Bool × List (Bytes × Nat)
  | [], _, methods => (true, methods)
  | md :: rest, i, methods =>
    match methods.lookup md with
    | some _ => (false, methods)
    | none => addMethods rest (i + 1) (methods ++ [(md, i)])

def addService (o : Objects) (r : Registry) (service : Nat) : Bool × Registry :=
  match r.services.lookup (o.descriptor service).name with
  | some _ => (false, r)
  | none =>
    let (added, methods) := addMethods (o.descriptor service).methods 0 []
    (added, { r with services := r.services ++ [((o.descriptor service).name, service, methods)] })

def findServiceMethod (r : Registry) (serviceName methodName : Bytes) : Option (Nat × Nat) :=
  match r.services.lookup serviceName with
  | none => none
  | some (service, methods) =>
    match methods.lookup methodName with
    | none => none
    | some method => some (service, method)

/-- What `~PbServer` deletes, except for the order of the services. -/
def destroyed (r : Registry) : List Registrable :=
  r.protocols.map .protocol ++ r.services.map fun p => .service p.2.1

def register (o : Objects) (r : Registry) : Registrable → Bool × Registry
  | .protocol proto => r.addProtocol o proto
  | .service service => r.addService o service

/-- The calls of a program, each with its result, and what they leave. -/
def registered (o : Objects) (calls : List Registrable) : List (Registrable × Bool) × Registry :=
  calls.foldl (fun s x => (s.1 ++ [(x, (s.2.register o x).1)], (s.2.register o x).2)) ([], {})

/-- The server as it starts. -/
def server (o : Objects) (r : Registry) (parses : Request → Bool) (readTimeoutMs writeTimeoutMs : Int)
    (async : Bool) : PbServer where
  protocols := r.protocols.map o.protocol
  services := r.services.map fun p => (p.1, p.2.2.map Prod.fst)
  parses := parses
  readTimeoutMs := readTimeoutMs
  writeTimeoutMs := writeTimeoutMs
  async := async

end Registry

namespace Objects
variable (o : Objects)

def key : Registrable → RegisteredName
  | .protocol proto => .protocol (o.protocol proto).name
  | .service service => .service (o.descriptor service).name

/-- `MethodDescriptor`s of one service have distinct names, says protobuf. -/
def Distinct : Registrable → Prop
  | .protocol _ => True
  | .service service => (o.descriptor service).methods.Nodup

instance : ∀ x, Decidable (o.Distinct x)
  | .protocol _ => .isTrue trivial
  | .service service => inferInstanceAs (Decidable (o.descriptor service).methods.Nodup)

/-- A method that can be called: `add_service` was first called for its service under that
name, and no method up to it has a name twice. -/
def Offers (calls : List Registrable) (serviceName methodName : Bytes) (service method : Nat) : Prop :=
  calls.find? (under o.key (.service serviceName)) = some (.service service) ∧
    (o.descriptor service).methods[method]? = some methodName ∧
      ((o.descriptor service).methods.take (method + 1)).Nodup

/-- What the three containers hold of an object. -/
def pointer : Registrable → Option Nat
  | .protocol proto => some proto
  | .service _ => none

def named : Registrable → Option (Bytes × Nat)
  | .protocol proto => some ((o.protocol proto).name, proto)
  | .service _ => none

def serving : Registrable → Option (Bytes × Nat × List (Bytes × Nat))
  | .protocol _ => none
  | .service service => some ((o.descriptor service).name, service,
      (Registry.addMethods (o.descriptor service).methods 0 []).2)

def kind : Registrable → Option Protocol
  | .protocol proto => some (o.protocol proto)
  | .service _ => none

end Objects

namespace Registry
variable {o : Objects} {r : Registry} {table calls : List Registrable} {x : Registrable}
  {name : Bytes}

section Methods
variable {done rest : List Bytes} {md : Bytes} {i : Nat}

/-- Where the names are distinct, each is found at its place. -/
theorem lookup_zipIdx (distinct : done.Nodup) : done.zipIdx.lookup md = some i ↔ done[i]? = some md := by
  have keys : (done.zipIdx.map Prod.fst).Nodup := by
    rwa [List.zipIdx_map_fst]
  rw [lookup_eq_find?, Option.map_eq_some_iff, ← List.mk_mem_zipIdx_iff_getElem?]
  constructor
  · rintro ⟨⟨name, j⟩, found, rfl⟩
    obtain rfl : name = md := under_iff.mp (List.find?_some found)
    exact List.mem_of_find?_eq_some found
  · intro mem
    exact ⟨(md, i), find?_of_mem keys mem, rfl⟩

theorem lookup_zipIdx_none : done.zipIdx.lookup md = none ↔ md ∉ done := by
  rw [lookup_eq_find?, Option.map_eq_none_iff, List.find?_eq_none]
  constructor
  · intro never mem
    obtain ⟨i, hi⟩ := List.mem_iff_getElem?.mp mem
    exact never (md, i) (List.mk_mem_zipIdx_iff_getElem?.mpr hi) (under_iff.mpr rfl)
  · rintro absent ⟨name, i⟩ mem same
    obtain rfl : name = md := under_iff.mp same
    exact absent (List.mem_of_getElem? (List.mk_mem_zipIdx_iff_getElem?.mp mem))

/-- One more name that is not there yet. -/
theorem zipIdx_snoc : done.zipIdx ++ [(md, done.length)] = (done ++ [md]).zipIdx := by
  rw [List.zipIdx_append, Nat.zero_add, List.zipIdx_singleton]

theorem nodup_snoc (distinct : done.Nodup) (absent : md ∉ done) : (done ++ [md]).Nodup := by
  rw [← List.concat_eq_append]
  exact .concat absent distinct

theorem addMethods_found (distinct : done.Nodup) :
    (addMethods rest done.length done.zipIdx).2.lookup md = some i ↔
      (done ++ rest)[i]? = some md ∧ ((done ++ rest).take (i + 1)).Nodup := by
  induction rest generalizing done with
  | nil =>
      rw [addMethods, lookup_zipIdx distinct, List.append_nil]
      exact (and_iff_left (distinct.sublist (List.take_sublist _ _))).symm
  | cons next rest ih =>
      rw [addMethods]
      cases here : done.zipIdx.lookup next with
      | none =>
          have absent : next ∉ done := lookup_zipIdx_none.mp here
          have more := ih (nodup_snoc distinct absent)
          rw [List.length_append, List.length_singleton] at more
          simp only [zipIdx_snoc, more, List.append_assoc, List.singleton_append]
      | some j =>
          have there : next ∈ done := List.mem_of_getElem? ((lookup_zipIdx distinct).mp here)
          simp only [lookup_zipIdx distinct]
          constructor
          · intro at_i
            have inside : i < done.length := (List.getElem?_eq_some_iff.mp at_i).1
            rw [List.getElem?_append_left inside, List.take_append_of_le_length inside]
            exact ⟨at_i, distinct.sublist (List.take_sublist _ _)⟩
          · rintro ⟨at_i, unique⟩
            by_cases inside : i < done.length
            · rwa [List.getElem?_append_left inside] at at_i
            · -- the repeated name stands before place `i`
              have front : done ++ [next] <+: (done ++ next :: rest).take (i + 1) := by
                rw [List.prefix_take_iff]
                refine ⟨⟨rest, by rw [List.append_assoc, List.singleton_append]⟩, ?_⟩
                rw [List.length_append, List.length_singleton]
                omega
              have twice := unique.sublist front.sublist
              rw [List.nodup_append] at twice
              exact absurd rfl (twice.2.2 next there next (List.mem_singleton_self next))

theorem addMethods_true (distinct : done.Nodup) :
    (addMethods rest done.length done.zipIdx).1 = true ↔ (done ++ rest).Nodup := by
  induction rest generalizing done with
  | nil =>
      rw [addMethods, List.append_nil]
      exact iff_of_true rfl distinct
  | cons next rest ih =>
      rw [addMethods]
      cases here : done.zipIdx.lookup next with
      | none =>
          have absent : next ∉ done := lookup_zipIdx_none.mp here
          have more := ih (nodup_snoc distinct absent)
          rw [List.length_append, List.length_singleton] at more
          simp only [zipIdx_snoc, more, List.append_assoc, List.singleton_append]
      | some j =>
          have there : next ∈ done := List.mem_of_getElem? ((lookup_zipIdx distinct).mp here)
          refine iff_of_false Bool.false_ne_true ?_
          intro unique
          rw [List.nodup_append] at unique
          exact unique.2.2 next there next List.mem_cons_self rfl

end Methods

/-- The containers of a server against one table of objects by kind and name. -/
structure Refines (o : Objects) (r : Registry) (table : List Registrable) : Prop where
  protocols : r.protocols = table.filterMap Objects.pointer
  names : r.name2protocols = table.filterMap o.named
  services : r.services = table.filterMap o.serving

theorem found_key {k : RegisteredName} (h : table.find? (under o.key k) = some x) : o.key x = k :=
  under_iff.mp (List.find?_some h)

theorem Refines.names_lookup (h : Refines o r table) :
    r.name2protocols.lookup name = (table.find? (under o.key (.protocol name))).bind Objects.pointer := by
  have same : (fun y => (o.named y).any (under Prod.fst name)) = under o.key (.protocol name) := by
    funext y
    rw [Bool.eq_iff_iff, under_iff]
    cases y <;> simp [Objects.named, Objects.key, under_iff]
  rw [lookup_eq_find?, h.names, List.find?_filterMap, same]
  cases table.find? (under o.key (.protocol name)) with
  | none => rfl
  | some y => cases y <;> rfl

theorem Refines.services_lookup (h : Refines o r table) :
    r.services.lookup name =
      (table.find? (under o.key (.service name))).bind fun x => (o.serving x).map Prod.snd := by
  have same : (fun y => (o.serving y).any (under Prod.fst name)) = under o.key (.service name) := by
    funext y
    rw [Bool.eq_iff_iff, under_iff]
    cases y <;> simp [Objects.serving, Objects.key, under_iff]
  rw [lookup_eq_find?, h.services, List.find?_filterMap, same, Option.map_bind]
  rfl

/-- An object is refused for its name, and a service also for its methods. -/
theorem Refines.register_true (h : Refines o r table) : (r.register o x).1 = true ↔
    table.find? (under o.key (o.key x)) = none ∧ o.Distinct x := by
  cases x with
  | protocol proto =>
      rw [register, addProtocol, h.names_lookup, Objects.key]
      cases found : table.find? (under o.key (.protocol (o.protocol proto).name)) with
      | none => exact iff_of_true rfl ⟨rfl, trivial⟩
      | some y =>
          cases y with
          | protocol q => exact iff_of_false Bool.false_ne_true fun both => nomatch both.1
          | service s => cases found_key found
  | service service =>
      rw [register, addService, h.services_lookup, Objects.key]
      cases found : table.find? (under o.key (.service (o.descriptor service).name)) with
      | none =>
          rw [eq_self, true_and]
          exact addMethods_true List.nodup_nil
      | some y =>
          cases y with
          | protocol q => cases found_key found
          | service s => exact iff_of_false Bool.false_ne_true fun both => nomatch both.1

theorem Refines.register (h : Refines o r table) :
    Refines o (r.register o x).2 (keep o.key table x) := by
  cases x with
  | protocol proto =>
      rw [Registry.register, addProtocol, h.names_lookup]
      cases found : table.find? (under o.key (.protocol (o.protocol proto).name)) with
      | none =>
          rw [keep_of_none found]
          constructor
          · rw [List.filterMap_append, ← h.protocols]
            rfl
          · rw [List.filterMap_append, ← h.names]
            rfl
          · rw [List.filterMap_append, ← h.services]
            exact (List.append_nil _).symm
      | some y =>
          rw [keep_of_some found]
          cases y with
          | protocol q => exact h
          | service s => cases found_key found
  | service service =>
      rw [Registry.register, addService, h.services_lookup]
      cases found : table.find? (under o.key (.service (o.descriptor service).name)) with
      | none =>
          rw [keep_of_none found]
          constructor
          · rw [List.filterMap_append, ← h.protocols]
            exact (List.append_nil _).symm
          · rw [List.filterMap_append, ← h.names]
            exact (List.append_nil _).symm
          · rw [List.filterMap_append, ← h.services]
            rfl
      | some y =>
          rw [keep_of_some found]
          cases y with
          | protocol q => cases found_key found
          | service s => exact h

theorem registered_snoc : registered o (calls ++ [x]) =
    ((registered o calls).1 ++ [(x, ((registered o calls).2.register o x).1)],
      ((registered o calls).2.register o x).2) := by
  simp only [registered, List.foldl_append, List.foldl_cons, List.foldl_nil]

theorem refines_registered (o : Objects) (calls : List Registrable) :
    Refines o (registered o calls).2 (fill o.key calls) := by
  induction calls using List.reverseRecOn with
  | nil => exact ⟨rfl, rfl, rfl⟩
  | append_singleton calls x ih =>
      rw [registered_snoc, fill_snoc]
      exact ih.register

section Found
variable {serviceName methodName : Bytes} {service method : Nat}

theorem Refines.found (h : Refines o r (fill o.key calls)) :
    r.findServiceMethod serviceName methodName = some (service, method) ↔
      o.Offers calls serviceName methodName service method := by
  have offered : ∀ {s i}, (addMethods (o.descriptor s).methods 0 []).2.lookup methodName = some i ↔
      (o.descriptor s).methods[i]? = some methodName ∧
        ((o.descriptor s).methods.take (i + 1)).Nodup := addMethods_found List.nodup_nil
  rw [findServiceMethod, h.services_lookup, find?_fill, Objects.Offers]
  cases found : calls.find? (under o.key (.service serviceName)) with
  | none => exact iff_of_false nofun fun offer => nomatch offer.1
  | some y =>
      cases y with
      | protocol proto => cases found_key found
      | service s =>
          simp only [Objects.serving, Option.bind_some, Option.map_some]
          constructor
          · intro here
            cases at_name : (addMethods (o.descriptor s).methods 0 []).2.lookup methodName with
            | none =>
                rw [at_name] at here
                cases here
            | some i =>
                rw [at_name] at here
                cases here
                exact ⟨rfl, offered.mp at_name⟩
          · rintro ⟨first, there⟩
            cases first
            rw [offered.mpr there]

/-- What a request finds is a method of the service that was first registered under the
name it has, so the descriptor goes with the object it is handed to; and every such method
is found, unless `add_service` gave up before it. -/
theorem findServiceMethod_iff (o : Objects) (calls : List Registrable)
    (serviceName methodName : Bytes) (service method : Nat) :
    (registered o calls).2.findServiceMethod serviceName methodName = some (service, method) ↔
      o.Offers calls serviceName methodName service method :=
  (refines_registered o calls).found

end Found

section Destroyed

/-- The three containers hold every object once between them. -/
theorem Refines.destroyed (h : Refines o r table) : r.destroyed.Perm table := by
  rw [Registry.destroyed, h.protocols, h.services]
  clear h
  induction table with
  | nil => exact .nil
  | cons x table ih =>
      cases x with
      | protocol proto => exact ih.cons _
      | service service => exact List.perm_middle.trans (ih.cons _)

/-- Without repeated methods, what was taken is what is kept. -/
theorem accepted_eq (distinct : ∀ x ∈ calls, o.Distinct x) :
    ((registered o calls).1.filter Prod.snd).map Prod.fst = fill o.key calls := by
  induction calls using List.reverseRecOn with
  | nil => rfl
  | append_singleton calls x ih =>
      have before := ih fun y hy => distinct y (List.mem_append_left _ hy)
      have here : o.Distinct x := distinct x (List.mem_append_right _ (List.mem_singleton_self x))
      have taken := (refines_registered o calls).register_true (x := x)
      rw [registered_snoc, fill_snoc, List.filter_append, List.map_append, before]
      cases found : (fill o.key calls).find? (under o.key (o.key x)) with
      | none =>
          rw [keep_of_none found, taken.mpr ⟨found, here⟩]
          rfl
      | some y =>
          have refused : ((registered o calls).2.register o x).1 = false := by
            rw [← Bool.not_eq_true, taken, found]
            exact fun both => nomatch both.1
          rw [keep_of_some found, refused]
          exact List.append_nil _

/-- The destructor deletes the objects whose registration returned `true`, and each of them
once, however often it was handed over; they are those that came first under their names. -/
theorem destroyed_accepted (o : Objects) (calls : List Registrable)
    (distinct : ∀ x ∈ calls, o.Distinct x) :
    (registered o calls).2.destroyed.Perm (((registered o calls).1.filter Prod.snd).map Prod.fst) ∧
      (registered o calls).2.destroyed.Nodup ∧
      ∀ x, x ∈ (registered o calls).2.destroyed ↔ calls.find? (under o.key (o.key x)) = some x := by
  have kept := (refines_registered o calls).destroyed
  refine ⟨?_, kept.nodup_iff.mpr (fill_nodup calls), ?_⟩
  · rwa [accepted_eq distinct]
  · intro x
    rw [kept.mem_iff, mem_fill_iff]

/-- Two objects for each name. -/
def doubled : Objects where
  protocol p := if p < 2 then .simple else .http
  descriptor s := if s < 2 then ⟨[97], [[98], [99]]⟩ else ⟨[100], []⟩

def handedOver : List Registrable :=
  [.protocol 1, .service 0, .protocol 0, .service 1, .service 0, .service 3, .protocol 1]

theorem handedOver_destroyed : (registered doubled handedOver).2.destroyed.Perm
      (((registered doubled handedOver).1.filter Prod.snd).map Prod.fst) ∧
    (registered doubled handedOver).2.destroyed.Nodup ∧
    ∀ x, x ∈ (registered doubled handedOver).2.destroyed ↔
      handedOver.find? (under doubled.key (doubled.key x)) = some x :=
  destroyed_accepted doubled handedOver (by decide)

example : (registered doubled handedOver).2.destroyed = [.protocol 1, .service 0, .service 3] := by
  decide

end Destroyed

section Kinds

theorem name_injective : Function.Injective Protocol.name := by
  intro p q h
  cases p <;> cases q <;> first | rfl | cases h

/-- Of every kind of protocol the first object is kept, and no other. -/
theorem kinds_fill (o : Objects) (calls : List Registrable) :
    (fill o.key calls).filterMap o.kind = fill id (calls.filterMap o.kind) := by
  induction calls using List.reverseRecOn with
  | nil => rfl
  | append_singleton calls x ih =>
      rw [fill_snoc, List.filterMap_append]
      cases x with
      | service service =>
          have none : [Registrable.service service].filterMap o.kind = [] := rfl
          rw [none, List.append_nil, ← ih]
          cases found : (fill o.key calls).find? (under o.key (o.key (.service service))) with
          | none => rw [keep_of_none found, List.filterMap_append, none, List.append_nil]
          | some y => rw [keep_of_some found]
      | protocol proto =>
          have one : [Registrable.protocol proto].filterMap o.kind = [o.protocol proto] := rfl
          have same : (fun y => (o.kind y).any (under id (o.protocol proto))) =
              under o.key (o.key (.protocol proto)) := by
            funext y
            rw [Bool.eq_iff_iff, under_iff]
            cases y with
            | service s => simp [Objects.kind, Objects.key]
            | protocol q => simp [Objects.kind, Objects.key, under_iff, name_injective.eq_iff]
          have tried : (fill id (calls.filterMap o.kind)).find? (under id (o.protocol proto)) =
              ((fill o.key calls).find? (under o.key (o.key (.protocol proto)))).bind o.kind := by
            rw [← ih, List.find?_filterMap, same]
          rw [one, fill_snoc]
          cases found : (fill o.key calls).find? (under o.key (o.key (.protocol proto))) with
          | none =>
              rw [found] at tried
              rw [keep_of_none found, keep_of_none tried, List.filterMap_append, one, ih]
          | some y =>
              rw [found] at tried
              cases y with
              | service s => cases found_key found
              | protocol q =>
                  rw [keep_of_some found, keep_of_some tried, ih]

end Kinds

section Serving
variable {parses : Request → Bool} {readTimeoutMs writeTimeoutMs : Int} {async : Bool}
  {srv : PbServer} {l l' : Lifetime} {m : Move} {es : List (Lifetime × Move)} {fd : Nat}

theorem lookup_names (services : List (Bytes × Nat × List (Bytes × Nat))) :
    (services.map fun p => (p.1, p.2.2.map Prod.fst)).lookup name =
      (services.lookup name).map fun p => p.2.map Prod.fst := by
  induction services with
  | nil => rfl
  | cons p services ih =>
      rw [List.map_cons, List.lookup_cons, List.lookup_cons, ih]
      cases name == p.1 <;> rfl

/-- Whether a request is served does not depend on which objects serve it. -/
theorem findServiceMethod_server (serviceName methodName : Bytes) :
    (r.server o parses readTimeoutMs writeTimeoutMs async).findServiceMethod serviceName methodName =
      (r.findServiceMethod serviceName methodName).isSome := by
  rw [PbServer.findServiceMethod, Registry.server, lookup_names, findServiceMethod]
  cases r.services.lookup serviceName with
  | none => rfl
  | some p =>
      have known : (p.2.map Prod.fst).contains methodName = (p.2.lookup methodName).isSome := by
        rw [Bool.eq_iff_iff, List.contains_iff_mem, List.mem_map, List.lookup_isSome_iff]
        exact exists_congr fun a => and_congr_right fun _ => eq_comm.trans beq_iff_eq.symm
      simp only [Option.map_some, known]
      cases p.2.lookup methodName <;> rfl

theorem requestCallback_found {c : TCPConnection} {request : Request}
    (h : srv.requestCallback c = .ok (some request)) :
    srv.findServiceMethod request.service request.method = true ∧ srv.parses request = true := by
  rw [PbServer.requestCallback] at h
  cases hctx : c.ctx with
  | none =>
      rw [hctx] at h
      cases h
  | some ctx =>
      rw [hctx] at h
      obtain ⟨pbData, _, h⟩ := bind_ok.mp h
      obtain ⟨found, same⟩ := Option.ite_none_right_eq_some.mp (Except.ok.inj h)
      obtain rfl := Option.some.inj same
      exact Bool.and_eq_true_iff.mp found

/-- Only what can be found and parsed is dispatched. -/
def Found (srv : PbServer) (l : Lifetime) : Prop :=
  ∀ pack ∈ l.packs, srv.findServiceMethod pack.request.service pack.request.method = true ∧
    srv.parses pack.request = true

theorem found_step (h : Found srv l) (step : Lifetime.Step srv l m l') : Found srv l' := by
  have same : l'.packs = l.packs → Found srv l' := by
    intro packs
    rwa [Found, packs]
  cases Lifetime.step_moved step with
  | setup _ run => exact same run.packs
  | stmt _ run => exact same run.packs
  | func _ _ run => exact same run.packs
  | @respond n pack _ _ _ hp _ run =>
      intro p mem
      rw [run.packs] at mem
      rcases List.mem_or_eq_of_mem_set mem with old | rfl
      · exact h p old
      · exact h pack (List.mem_of_getElem? hp)
  | event _ _ _ _ _ outcome =>
      cases outcome with
      | dispatches _ _ _ _ _ requested =>
          intro pack mem
          rcases List.mem_append.mp mem with old | new
          · exact h pack old
          · rw [List.mem_singleton.mp new]
            exact requestCallback_found requested
      | _ => exact h
  | _ => exact h

/-- However a server was set up, and whatever happens to a connection of it: its streams are
tried with the kinds of protocol registered, in the order in which the first of each came, and
a service is called only with a method of its own and under the name it was the first for. -/
theorem dispatched_offered (o : Objects) (calls : List Registrable)
    (run : Run (lifetime ((registered o calls).2.server o parses readTimeoutMs writeTimeoutMs async) fd)
      es l) :
    ((registered o calls).2.server o parses readTimeoutMs writeTimeoutMs async).protocols =
        fill id (calls.filterMap o.kind) ∧
      ∀ pack ∈ l.packs, parses pack.request = true ∧ ∃ service method,
        o.Offers calls pack.request.service pack.request.method service method := by
  have refines := refines_registered o calls
  constructor
  · rw [← kinds_fill, Registry.server, refines.protocols, List.map_filterMap]
    apply List.filterMap_congr
    intro x _
    cases x <;> rfl
  · intro pack mem
    have dispatched : Found _ l := run.invariant guarded_true
      (by rintro _ rfl _ none; cases none) (fun before _ step => found_step before step)
    obtain ⟨found, parsed⟩ := dispatched pack mem
    rw [findServiceMethod_server, Option.isSome_iff_exists] at found
    obtain ⟨⟨service, method⟩, found⟩ := found
    exact ⟨parsed, service, method, refines.found.mp found⟩

def equipped : PbServer :=
  (registered doubled handedOver).2.server doubled (fun _ => true) (-1) (-1) false

/-- A client asks for the second method of the service. -/
def asking : List Move :=
  List.replicate 6 .setup ++ [.event { epollin := true }
    { read := .data ([0x19, 0x95, 0x10, 0x28] ++ [0, 0, 0, 0] ++ [0, 0, 0, 3] ++ [97, 47, 99] ++
      [0, 0, 0, 1] ++ [7]) } {}]

theorem asking_run : Run (lifetime equipped 7) (visits (Lifetime.next equipped) (.accepted equipped 7) asking)
    (replay (Lifetime.next equipped) (.accepted equipped 7) asking) :=
  ⟨_, rfl, path_replay (S := lifetime equipped 7)
    (E := fun l m => l.fault = none ∧ l.Enabled equipped m) (fun {_ _} h => ⟨h.1, h.2, rfl⟩) (by decide +kernel)⟩

theorem asking_offered : equipped.protocols = fill id (handedOver.filterMap doubled.kind) ∧
    ∀ pack ∈ (replay (Lifetime.next equipped) (.accepted equipped 7) asking).packs,
      equipped.parses pack.request = true ∧ ∃ service method,
        doubled.Offers handedOver pack.request.service pack.request.method service method :=
  dispatched_offered doubled handedOver asking_run

example : (replay (Lifetime.next equipped) (.accepted equipped 7) asking).packs.map Pack.request =
    [⟨[97], [99], [7]⟩] := by
  decide +kernel

end Serving

end Registry
end SmallRpc
