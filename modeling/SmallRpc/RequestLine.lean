import SmallRpc.HttpRoundTrip
import SmallRpc.Views

/-! The grammar of a request line, `M SP U SP V`, and what the parser makes of it. -/
namespace SmallRpc
open FirstMatch (firstMatch firstMatch_eq_some_iff firstMatch_singleton_append
  firstMatch_singleton_none firstMatch_singleton_some firstMatch_singleton_split)

structure RequestLine where
  method : HTTPMethod
  target : Bytes
  version : Bytes
  deriving DecidableEq, Repr

namespace RequestLine

def text (r : RequestLine) : Bytes := r.method.name ++ 32 :: (r.target ++ 32 :: r.version)

/-- The target begins with a slash, and neither field has a blank in it. -/
structure Valid (r : RequestLine) : Prop where
  slash : r.target.head? = some 47
  target : 32 ∉ r.target
  version : 32 ∉ r.version

/-- What lies between the first two slashes of the target, if there are two. -/
def service (r : RequestLine) : Bytes :=
  if 47 ∈ r.target.tail then r.target.tail.takeWhile (· ≠ 47) else []

/-- What lies behind the second. -/
def path (r : RequestLine) : Bytes := (r.target.tail.dropWhile (· ≠ 47)).tail

end RequestLine

namespace HTTPContext
variable {s s' : HTTPContext} {r : RequestLine} {line url v w : Bytes} {n offset : Nat}

theorem takeUrl_text (valid : r.Valid) : takeUrl s r.text r.method.name.length =
    some (takeTarget s (r.target ++ 32 :: r.version) r.target.length) := by
  have url : r.text.drop (r.method.name.length + 1) = r.target ++ 32 :: r.version := by
    rw [RequestLine.text, ← List.drop_drop, List.drop_left]
    rfl
  have blank : r.text[r.method.name.length]? = some 32 := by
    simp [RequestLine.text]
  have head : (r.target ++ 32 :: r.version).head? = some 47 := by
    rw [List.head?_append, valid.slash]
    rfl
  have some : r.target.length ≠ 0 := by
    intro h0
    have slash := valid.slash
    rw [List.length_eq_zero_iff.mp h0] at slash
    cases slash
  have rest : (r.target ++ 32 :: r.version).drop (r.target.length + 1) = r.version := by
    rw [← List.drop_drop, List.drop_left]
    rfl
  unfold takeUrl
  simp only [blank, url, ne_eq, not_true_eq_false, if_false,
    firstMatch_singleton_append valid.target, some, head, rest, valid.version, or_self]

theorem takeUrl_some (h : takeUrl s line offset = some s') : ∃ target version,
    line.drop offset = 32 :: (target ++ 32 :: version) ∧ target.head? = some 47 ∧ 32 ∉ target ∧
      32 ∉ version := by
  unfold takeUrl at h
  simp only at h
  split_ifs at h with blank
  split at h
  · cases h
  · rename_i tmp found
    split_ifs at h with bad
    obtain ⟨bound, _, before⟩ := firstMatch_singleton_some found
    have split := firstMatch_singleton_split found
    simp only [not_or, ne_eq, not_not] at bad blank
    refine ⟨_, _, ?_, ?_, before, bad.2.2⟩
    · rw [← split, ← List.cons_getElem_drop_succ (h := (List.getElem?_eq_some_iff.mp blank).1),
        (List.getElem?_eq_some_iff.mp blank).2]
    · rw [List.head?_take, if_neg bad.1]
      exact bad.2.1

/-- The service and the method of a target, for a context that has none. -/
theorem takeTarget_text (slash : r.target.head? = some 47) (service : s.service = [])
    (method : s.method = []) :
    (takeTarget s (r.target ++ 32 :: r.version) r.target.length).service = r.service ∧
      (takeTarget s (r.target ++ 32 :: r.version) r.target.length).method = r.path := by
  obtain ⟨target, hr⟩ : ∃ target, r.target = 47 :: target := by
    cases ht : r.target with
    | nil => rw [ht] at slash; cases slash
    | cons c target =>
        rw [ht] at slash
        cases slash
        exact ⟨target, rfl⟩
  rw [RequestLine.service, RequestLine.path, hr, List.tail_cons]
  by_cases second : 47 ∈ target
  · obtain ⟨front, back, rfl, first⟩ := List.eq_append_cons_of_mem second
    have packed := @takeTarget_packed s front back first (32 :: r.version)
    have bytes : 47 :: (front ++ 47 :: back) ++ 32 :: r.version =
        47 :: (front ++ 47 :: (back ++ 32 :: r.version)) := by simp
    have size : (47 :: (front ++ 47 :: back)).length = front.length + 1 + back.length + 1 := by
      simp only [List.length_cons, List.length_append]
      omega
    have stops : ∀ c ∈ front, decide (c ≠ 47) = true := by
      intro c hc
      simpa using ne_of_mem_of_not_mem hc first
    rw [bytes, size, packed, if_pos second]
    refine ⟨?_, ?_⟩
    · rw [List.takeWhile_append_of_pos stops]
      simp
    · rw [List.dropWhile_append_of_pos stops]
      simp
  · have window : ((47 :: target ++ 32 :: r.version).drop 1).take (target.length + 1) =
        target ++ [32] := by
      simp [List.take_append]
    rw [takeTarget, List.length_cons, window]
    have none : firstMatch [47] (target ++ [32]) = none := by
      rw [firstMatch_singleton_none]
      simp [second]
    rw [none, if_neg second]
    refine ⟨service, method.trans ?_⟩
    rw [List.dropWhile_eq_nil_iff.mpr]
    · rfl
    · intro c hc
      simpa using ne_of_mem_of_not_mem hc second

theorem mem_tried {m : HTTPMethod} : m ∈ HTTPMethod.tried ↔ m ≠ .connect := by
  cases m <;> decide

theorem lineMethod_some {m : HTTPMethod} (h : lineMethod line = some m) :
    m ∈ HTTPMethod.tried ∧ m.name <+: line := by
  unfold lineMethod at h
  have pre := List.find?_some h
  rw [List.isPrefixOf_iff_prefix] at pre
  exact ⟨List.mem_of_find?_eq_some h, pre⟩

/-- No name that is tried is the beginning of another. -/
theorem lineMethod_iff {m : HTTPMethod} :
    lineMethod line = some m ↔ m ∈ HTTPMethod.tried ∧ m.name <+: line := by
  have apart : ∀ m ∈ HTTPMethod.tried, ∀ m' ∈ HTTPMethod.tried, m.name <+: m'.name → m = m' := by
    decide
  refine ⟨lineMethod_some, ?_⟩
  · rintro ⟨hm, pre⟩
    cases found : lineMethod line with
    | none =>
        have hno := List.find?_eq_none.mp found m hm
        exact absurd (List.isPrefixOf_iff_prefix.mpr pre) hno
    | some m' =>
        obtain ⟨hm', pre'⟩ := lineMethod_some found
        rcases Nat.le_total m.name.length m'.name.length with le | le
        · rw [apart m hm m' hm' (List.prefix_of_prefix_length_le pre pre' le)]
        · rw [apart m' hm' m hm (List.prefix_of_prefix_length_le pre' pre le)]

theorem takeRequestLine_text (valid : r.Valid) (tried : r.method ∈ HTTPMethod.tried) :
    takeRequestLine s r.text = some (takeTarget { s with httpMethod := some r.method }
      (r.target ++ 32 :: r.version) r.target.length) := by
  have found : lineMethod r.text = some r.method :=
    lineMethod_iff.mpr ⟨tried, List.prefix_append _ _⟩
  unfold takeRequestLine
  simp only [found, Option.some_or, reduceCtorEq, if_false, Option.elim_some]
  exact takeUrl_text valid

theorem takeRequestLine_some (new : s.httpMethod = none) (h : takeRequestLine s line = some s') :
    ∃ r : RequestLine, r.Valid ∧ r.method ∈ HTTPMethod.tried ∧ line = r.text := by
  unfold takeRequestLine at h
  cases found : lineMethod line with
  | none =>
      rw [found, new] at h
      cases h
  | some m =>
      obtain ⟨tried, pre⟩ := lineMethod_iff.mp found
      rw [found] at h
      obtain ⟨target, version, split, slash, noBlank, noBlank'⟩ := takeUrl_some h
      refine ⟨⟨m, target, version⟩, ⟨slash, noBlank, noBlank'⟩, tried, ?_⟩
      obtain ⟨rest, rfl⟩ := pre
      rw [Option.elim_some, List.drop_left] at split
      rw [RequestLine.text, split]

end HTTPContext

namespace HTTPProtocol
open HTTPContext HTTPParser
open Relation (ReflTransGen)

/-- With a null context the call makes one and enters its loop, and the loop comes to `q`. -/
def ComesTo (b : Buffer) (q : HTTPParser) : Prop :=
  parseRequest ⟨none, b⟩ = resume {} b ∧
    ReflTransGen (fun p q => requestStage p = .ok (.again q)) ⟨{}, b⟩ q

/-- The call gets past the request line. -/
def Past (b : Buffer) : Prop := ∃ q, ComesTo b q ∧ 1 ≤ q.ctx.stage

/-- The stream begins with this line, which is not too long. -/
structure BeginsWith (b : Buffer) (line : Bytes) : Prop where
  noBreak : ¬ Buffer.crlf <:+: line
  fits : line.length ≤ 65534
  bytes : ∃ v, b.unread = line ++ Buffer.crlf ++ v

/-- The grammar of the request line, and what the call takes from it. -/
structure Grammatical (b : Buffer) : Prop where
  past : ∀ line, BeginsWith b line → (Past b ↔ ∃ r : RequestLine, r.Valid ∧ line = r.text)
  names : ∀ r : RequestLine, r.Valid → BeginsWith b r.text → ∀ q, ComesTo b q → 1 ≤ q.ctx.stage →
    q.ctx.service = r.service ∧ q.ctx.method = r.path
  other : 7 ≤ b.unread.length → (∀ m : HTTPMethod, ¬ m.name <+: b.unread) →
    parseRequest ⟨none, b⟩ = .ok (.tryAnotherProtocol, ⟨none, b⟩)

/-- The stream begins with a `CONNECT` request. -/
def Connects (b : Buffer) : Prop :=
  ∃ r : RequestLine, r.Valid ∧ r.method = .connect ∧ BeginsWith b r.text

variable {b : Buffer} {q : HTTPParser} {line : Bytes} {r : RequestLine}

theorem BeginsWith.lineEnd (h : BeginsWith b line) : lineEnd b.unread = some line.length ∧
    b.unread.take line.length = line := by
  obtain ⟨v, bytes⟩ := h.bytes
  rw [bytes]
  refine ⟨lineEnd_first h.noBreak h.fits v, ?_⟩
  rw [List.append_assoc, List.take_left]

/-- The first pass of the loop. -/
theorem first_pass (wf : b.Wf) (h : BeginsWith b line) :
    match takeRequestLine {} line with
    | none => ∃ q, requestStage ⟨{}, b⟩ = .ok (.ret .error q)
    | some s => ∃ q, requestStage ⟨{}, b⟩ = .ok (.again q) ∧ q.ctx.bare = { s with stage := 1 } := by
  have pass := parseRequestLine_follows (frame_matches (p := ⟨{}, b⟩) wf) rfl
  obtain ⟨ends, taken⟩ := h.lineEnd
  have bare : HTTPContext.bare {} = {} := rfl
  rw [bare, requestLineVerdict, onLine] at pass
  simp only [ends, taken] at pass
  cases found : takeRequestLine {} line with
  | none =>
      simp only [found] at pass ⊢
      cases pass with
      | stop hp => exact ⟨_, hp⟩
  | some s =>
      simp only [found] at pass ⊢
      cases pass with
      | advance hp moved => exact ⟨_, hp, moved.bare⟩

/-- A pass behind the request line changes neither of the names. -/
theorem later_pass {p : HTTPParser} (h1 : 1 ≤ p.ctx.stage) (h : requestStage p = .ok (.again q)) :
    1 ≤ q.ctx.stage ∧ q.ctx.service = p.ctx.service ∧ q.ctx.method = p.ctx.method := by
  unfold requestStage at h
  split at h
  · omega
  · obtain ⟨⟨o, t⟩, headers, h⟩ := map_ok.mp h
    obtain ⟨_, ctx⟩ := headerLines_ctx headers
    cases o with
    | partSuccess =>
        cases h
        rw [ctx]
        exact ⟨Nat.le_add_left 1 _, rfl, rfl⟩
    | _ => cases h
  · unfold parseBody at h
    split_ifs at h
    · cases h
      exact ⟨Nat.le_add_left 1 _, rfl, rfl⟩
    · cases h
  · cases h

theorem later_passes {p : HTTPParser} (h1 : 1 ≤ p.ctx.stage)
    (h : ReflTransGen (fun p q => requestStage p = .ok (.again q)) p q) :
    1 ≤ q.ctx.stage ∧ q.ctx.service = p.ctx.service ∧ q.ctx.method = p.ctx.method := by
  induction h with
  | refl => exact ⟨h1, rfl, rfl⟩
  | tail _ step ih =>
      obtain ⟨stage, service, method⟩ := ih
      obtain ⟨stage', service', method'⟩ := later_pass stage step
      exact ⟨stage', service'.trans service, method'.trans method⟩

/-- Who is past the request line has been through a first pass. -/
theorem ComesTo.first (h : ComesTo b q) (h1 : 1 ≤ q.ctx.stage) :
    ∃ p, requestStage ⟨{}, b⟩ = .ok (.again p) ∧
      ReflTransGen (fun p q => requestStage p = .ok (.again q)) p q := by
  rcases h.2.cases_head with rfl | ⟨p, first, later⟩
  · cases h1
  · exact ⟨p, first, later⟩

/-- A line in the grammar is long enough to be looked at. -/
theorem enters (wf : b.Wf) (valid : r.Valid) (tried : r.method ∈ HTTPMethod.tried)
    (h : BeginsWith b r.text) : parseRequest ⟨none, b⟩ = resume {} b := by
  obtain ⟨v, bytes⟩ := h.bytes
  have named : r.method.name <+: b.unread := by
    rw [bytes, RequestLine.text, List.append_assoc, List.append_assoc]
    exact List.prefix_append _ _
  have long : 3 ≤ r.method.name.length := by
    generalize r.method = m
    cases m <;> decide
  have some : 0 < r.target.length := by
    refine List.length_pos_iff.mpr fun none => ?_
    have slash := valid.slash
    rw [none] at slash
    cases slash
  have enough : httpMethodMaxLen ≤ b.unread.length := by
    have brk : Buffer.crlf.length = 2 := rfl
    have seven : httpMethodMaxLen = 7 := rfl
    simp only [bytes, RequestLine.text, List.length_append, List.length_cons, brk]
    omega
  rcases fresh_cases (s := ⟨none, b⟩) rfl wf with ⟨few, _⟩ | ⟨_, ⟨other, _⟩ | ⟨_, out⟩⟩
  · exact absurd few (Nat.not_lt.mpr enough)
  · exact absurd named (other _ tried)
  · exact out

/-- The call gets past a line exactly if it is in the grammar, and its method is tried. -/
theorem past_iff (wf : b.Wf) (h : BeginsWith b line) : Past b ↔
    ∃ r : RequestLine, r.Valid ∧ r.method ∈ HTTPMethod.tried ∧ line = r.text := by
  have pass := first_pass wf h
  constructor
  · rintro ⟨q, comes, h1⟩
    obtain ⟨p, first, _⟩ := comes.first h1
    cases taken : takeRequestLine {} line with
    | none =>
        simp only [taken] at pass
        obtain ⟨p', out⟩ := pass
        rw [first] at out
        cases out
    | some s => exact takeRequestLine_some rfl taken
  · rintro ⟨r, valid, tried, rfl⟩
    rw [takeRequestLine_text valid tried] at pass
    obtain ⟨q, first, bare⟩ := pass
    have stage : q.ctx.stage = 1 := congrArg HTTPContext.stage bare
    exact ⟨q, ⟨enters wf valid tried h, .single first⟩, stage.ge⟩

theorem names_eq (wf : b.Wf) (valid : r.Valid) (tried : r.method ∈ HTTPMethod.tried)
    (h : BeginsWith b r.text) (comes : ComesTo b q) (h1 : 1 ≤ q.ctx.stage) :
    q.ctx.service = r.service ∧ q.ctx.method = r.path := by
  have pass := first_pass wf h
  rw [takeRequestLine_text valid tried] at pass
  obtain ⟨p, first, bare⟩ := pass
  obtain ⟨p', first', later⟩ := comes.first h1
  rw [first] at first'
  cases first'
  have stage : p.ctx.stage = 1 := congrArg HTTPContext.stage bare
  obtain ⟨_, service, method⟩ := later_passes stage.ge later
  obtain ⟨service', method'⟩ := takeTarget_text (s := { httpMethod := some r.method })
    (r := r) valid.slash rfl rfl
  have here : p.ctx.service = _ := congrArg (fun c => c.service) bare
  have here' : p.ctx.method = _ := congrArg (fun c => c.method) bare
  exact ⟨service.trans (here.trans service'), method.trans (here'.trans method')⟩

/-- No other name stands in front of a line that begins with `CONNECT`. -/
theorem connect_only {r' : RequestLine} (h : r.method = .connect) (same : r.text = r'.text) :
    r'.method = .connect := by
  have apart : ∀ m : HTTPMethod, m ≠ .connect →
      ¬ m.name <+: HTTPMethod.connect.name ∧ ¬ HTTPMethod.connect.name <+: m.name := by
    intro m
    cases m <;> decide
  by_contra other
  have pre : r'.method.name <+: r.text := by
    rw [same]
    exact List.prefix_append _ _
  have pre' : HTTPMethod.connect.name <+: r.text := by
    rw [← h]
    exact List.prefix_append _ _
  obtain ⟨front, back⟩ := apart _ other
  rcases Nat.le_total r'.method.name.length HTTPMethod.connect.name.length with le | le
  · exact front (List.prefix_of_prefix_length_le pre pre' le)
  · exact back (List.prefix_of_prefix_length_le pre' pre le)

/-- The call keeps to the grammar on every stream but a `CONNECT` request. -/
theorem grammatical_iff (wf : b.Wf) : Grammatical b ↔ ¬ Connects b := by
  constructor
  · rintro grammatical ⟨r, valid, connect, begins⟩
    have past := (grammatical.past _ begins).mpr ⟨r, valid, rfl⟩
    obtain ⟨r', _, tried, same⟩ := (past_iff wf begins).mp past
    exact mem_tried.mp tried (connect_only connect same)
  · intro other
    have tried : ∀ r : RequestLine, r.Valid → BeginsWith b r.text → r.method ∈ HTTPMethod.tried :=
      fun r valid begins => mem_tried.mpr fun connect => other ⟨r, valid, connect, begins⟩
    refine ⟨fun line begins => ?_, fun r valid begins q => ?_, fun enough none => ?_⟩
    · rw [past_iff wf begins]
      constructor
      · rintro ⟨r, valid, _, rfl⟩
        exact ⟨r, valid, rfl⟩
      · rintro ⟨r, valid, rfl⟩
        exact ⟨r, valid, tried r valid begins, rfl⟩
    · exact names_eq wf valid (tried r valid begins) begins
    · rcases fresh_cases (s := ⟨Option.none, b⟩) rfl wf with ⟨few, _⟩ | ⟨_, ⟨_, out⟩ | ⟨⟨m, _, pre⟩, _⟩⟩
      · exact absurd few (Nat.not_lt.mpr enough)
      · exact out
      · exact absurd pre (none m)

/-- `CONNECT` is a declared method. -/
def tunnel : RequestLine := ⟨.connect, ascii "/echo/echo", ascii "HTTP/1.1"⟩

def tunnelled : Buffer := (Buffer.ofSize 64).put (tunnel.text ++ Buffer.crlf ++ Buffer.crlf)

theorem tunnelled_grammatical_iff : Grammatical tunnelled ↔ ¬ Connects tunnelled :=
  grammatical_iff (by decide +kernel)

theorem not_grammatical : ¬ ∀ b : Buffer, b.Wf → Grammatical b := by
  intro claim
  have wf : tunnelled.Wf := by decide +kernel
  have begins : BeginsWith tunnelled tunnel.text :=
    ⟨by decide +kernel, by decide +kernel, Buffer.crlf, by decide +kernel⟩
  have valid : tunnel.Valid := ⟨by decide +kernel, by decide +kernel, by decide +kernel⟩
  have past := ((claim tunnelled wf).past _ begins).mpr ⟨tunnel, valid, rfl⟩
  obtain ⟨r, _, tried, same⟩ := (past_iff wf begins).mp past
  exact mem_tried.mp tried (connect_only rfl same)

end HTTPProtocol
end SmallRpc
