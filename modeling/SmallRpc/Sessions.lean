import SmallRpc.Pipelining
import SmallRpc.Setup
import SmallRpc.SyncEnds
import SmallRpc.Transparency

/-! Sessions: one client makes its calls one after the other on a connection that is kept open.
No move leads to a state from which the call the client is in could not be finished. -/
namespace SmallRpc
open Runs Lifetime
open Buffer (ReadResult WriteResult HeadFirst)

theorem Buffer.headFirst_full (b : Buffer) (ps : List Buffer.Piece) :
    HeadFirst ⟨b, ps⟩ (.wrote b.readable, .wrote b.extraable) := by
  rintro _ _ n m same short
  obtain ⟨head, _⟩ := Prod.mk.inj same
  obtain rfl := WriteResult.wrote.inj head
  exact absurd short (Nat.lt_irrefl _)

namespace Lifetime
variable {srv : PbServer} {protocol : Protocol} {stream : List (Call × Bytes)} {l l' : Lifetime} {k : Nat}
  {w bs x : Bytes} {call : Call} {m : SmallRpc.Move}

/-- Of a stream that has been received nothing is left. -/
theorem Upto.all (h : Upto stream k w (stream.map Prod.snd).flatten) : stream[k]? = none ∧ w = [] := by
  have none : stream[k]? = none := by
    by_contra some
    obtain ⟨p, hp⟩ := Option.ne_none_iff_exists'.mp some
    obtain ⟨hlt, at_⟩ := List.getElem?_eq_some_iff.mp hp
    have split : stream = stream.take k ++ p :: stream.drop (k + 1) := by
      rw [← at_, List.cons_getElem_drop_succ, List.take_append_drop]
    have short := h.short p hp
    have bytes := congrArg List.length h.bytes
    conv_lhs at bytes => rw [split]
    simp only [List.map_append, List.map_cons, List.flatten_append, List.flatten_cons,
      List.length_append] at bytes
    omega
  refine ⟨none, ?_⟩
  have all : stream.take k = stream := List.take_of_length_le (List.getElem?_eq_none_iff.mp none)
  have bytes := h.bytes
  rw [all] at bytes
  exact List.self_eq_append_right.mp bytes

/-- The stream goes on once all of it has been received. -/
theorem Underway.extend (h : Underway srv protocol stream (stream.map Prod.snd).flatten l) (stays : ¬ Gone l)
    (hx : x ≠ []) : Underway srv protocol (stream ++ [(call, x)]) (stream.map Prod.snd).flatten l := by
  have more : ∀ {w}, Upto stream l.packs.length w (stream.map Prod.snd).flatten →
      l.served = (stream.take l.packs.length).map (·.1.request) → w = [] ∧
        Upto (stream ++ [(call, x)]) l.packs.length [] (stream.map Prod.snd).flatten ∧
          l.served = ((stream ++ [(call, x)]).take l.packs.length).map (·.1.request) := by
    intro w upto same
    obtain ⟨none, rfl⟩ := upto.all
    have long := List.getElem?_eq_none_iff.mp none
    have length : l.packs.length = stream.length := by
      have length := congrArg List.length same
      rw [served, List.length_map, List.length_map, List.length_take] at length
      omega
    have take : (stream ++ [(call, x)]).take l.packs.length = stream := by
      rw [length]
      exact List.take_left
    refine ⟨rfl, ⟨by rw [take, List.append_nil], ?_⟩, ?_⟩
    · intro p hp
      rw [length, List.getElem?_concat_length] at hp
      obtain rfl := Option.some.inj hp
      exact List.length_pos_iff.mpr hx
    · rw [take, same, length, List.take_length]
  refine ⟨h.sound, h.sourced, h.room, ?_⟩
  cases h.place with
  | gone gone _ => exact absurd gone stays
  | receiving between upto same =>
      obtain ⟨rfl, upto, same⟩ := more upto same
      exact .receiving between upto same
  | answering answering upto same =>
      obtain ⟨_, upto, same⟩ := more upto same
      exact .answering answering upto same

theorem Served.snoc (h : Served srv protocol stream) (req : Requests call x protocol)
    (kept : call.connType ≠ .short) (found : srv.findServiceMethod call.service call.method = true)
    (parses : srv.parses call.request = true) : Served srv protocol (stream ++ [(call, x)]) := by
  have each : ∀ {P : Call × Bytes → Prop}, (∀ p ∈ stream, P p) → P (call, x) →
      ∀ p ∈ stream ++ [(call, x)], P p := by
    intro P old new p hp
    rcases List.mem_append.mp hp with before | last
    · exact old p before
    · rwa [List.mem_singleton.mp last]
  exact ⟨each h.requests req, each h.kept kept, each h.found found, each h.parses parses⟩

/-- No move of a connection that stays deletes it. -/
theorem stays_undeleted (stays : ¬ Gone l) (sync : Synchronous l) : l.statement m ≠ some .deleteConn := by
  intro deletes
  cases m with
  | setup =>
      have mem := List.mem_of_mem_head? (Option.mem_def.mpr deletes)
      exact (sync.setup _ mem).1 rfl
  | stmt => exact stays (.inr (.inr (List.mem_of_mem_head? (Option.mem_def.mpr deletes))))
  | respond n =>
      cases hp : l.packs[n]? with
      | none => simp [statement, hp] at deletes
      | some pack =>
          simp only [statement, hp] at deletes
          have mem := List.mem_of_mem_head? (Option.mem_def.mpr deletes)
          exact (sync.todo pack (List.mem_of_getElem? hp) _ mem).1 rfl
  | func =>
      simp only [statement] at deletes
      split_ifs at deletes
      cases deletes
  | _ => cases deletes

/-- A loop that takes no timer has none to handle. -/
theorem expired_step (h : l.phase.expired = []) (step : Step srv l m l')
    (none : ∀ expired left, m = .drain expired left → expired = []) : l'.phase.expired = [] := by
  cases step_moved step with
  | setup _ run => rw [run.phase]; exact h
  | stmt _ run => rw [run.phase]; exact h
  | respond _ _ run => rw [run.phase]; exact h
  | func _ _ run => rw [run.phase]; rfl
  | event _ _ _ _ _ outcome => cases outcome <;> rfl
  | drain _ _ _ => exact none _ _ rfl
  | expire _ hp _ _ _ =>
      rw [hp] at h
      cases h
  | stale _ hp =>
      rw [hp] at h
      cases h
  | fault _ => exact h
  | _ => rfl

/-- A connection that was accepted counts as connected. -/
def Linked (l : Lifetime) : Prop := ∀ c, l.conn = some c → c.connected = true

theorem linked_start {fd : Nat} : Linked (accepted srv fd) := by
  intro c hc
  obtain rfl := Option.some.inj hc
  rfl

theorem linked_step (h : Linked l) (step : Step srv l m l') : Linked l' := by
  have ran : ∀ {s t}, Executed s t l' → t.conn = l.conn → Linked l' := by
    intro s t run conn c' hc'
    obtain ⟨_, c, hc, touched, _⟩ := run.kept c' hc'
    exact touched.connected.trans (h c (conn ▸ hc))
  cases step_moved step with
  | setup _ run => exact ran run rfl
  | stmt _ run => exact ran run rfl
  | respond _ _ run => exact ran run rfl
  | func _ _ run => exact ran run rfl
  | @event _ _ _ c _ _ _ hc _ _ outcome =>
      have linked := h c hc
      have kept : ∀ {rbuf d}, Parsed { c with rbuf } d → d.connected = true := by
        intro rbuf d same
        rw [same]
        exact linked
      cases outcome with
      | closes _ closing => exact fun c' hc' => Option.some.inj hc' ▸ kept closing.parsed
      | waits _ _ _ _ parse => exact fun c' hc' => Option.some.inj hc' ▸ kept (dataReadCallback_parsed parse)
      | dispatches _ _ _ _ parse _ =>
          exact fun c' hc' => Option.some.inj hc' ▸ kept (dataReadCallback_parsed parse)
      | _ => exact fun c' hc' => Option.some.inj hc' ▸ linked
  | _ => exact h

/-- Only a dispatch makes a new pack. -/
theorem step_packs (step : Step srv l m l') (more : l'.packs.length ≠ l.packs.length) :
    ∃ events io reply pack, m = .event events io reply ∧ events.epollin = true ∧
      l'.packs = l.packs ++ [pack] := by
  cases step_moved step with
  | setup _ run => exact absurd (congrArg List.length run.packs) more
  | stmt _ run => exact absurd (congrArg List.length run.packs) more
  | respond _ _ run => exact absurd ((congrArg List.length run.packs).trans List.length_set) more
  | func _ _ run => exact absurd (congrArg List.length run.packs) more
  | event _ _ _ _ _ outcome =>
      cases outcome with
      | dispatches hin _ _ _ _ _ => exact ⟨_, _, _, _, rfl, hin, rfl⟩
      | _ => exact absurd rfl more
  | _ => exact absurd rfl more

end Lifetime

namespace SyncCall
variable {w w' : SyncCall} {r : ReadResult}

theorem updateChannel_wbuf (h : w.updateChannel = .ok w') : w'.conn.wbuf = w.conn.wbuf := by
  unfold updateChannel at h
  split at h
  · rw [← Except.ok.inj h]
  · split at h
    · cases h
    · obtain ⟨_, _, done⟩ := bind_ok.mp h
      rw [← Except.ok.inj done]

theorem readFd_wbuf (h : w.readFd r = .ok w') : w'.conn.wbuf = w.conn.wbuf := by
  obtain ⟨⟨_, rbuf⟩, _, h⟩ := bind_ok.mp h
  change dataReadCallback _ = _ at h
  unfold dataReadCallback at h
  cases hctx : w.conn.ctx with
  | none =>
      rw [hctx] at h
      cases h
  | some ctx =>
      rw [hctx] at h
      obtain ⟨⟨status, s⟩, _, h⟩ := bind_ok.mp h
      have called : ∀ {v : SyncCall} {ctx}, v.responseCallback ctx = .ok w' → w'.conn.wbuf = v.conn.wbuf := by
        intro v ctx h
        obtain ⟨_, _, h⟩ := bind_ok.mp h
        have same := updateChannel_wbuf h
        exact same
      dsimp only at h
      split at h
      · rw [← Except.ok.inj h]
      · rw [called h]
      · rw [← Except.ok.inj h]

end SyncCall

namespace Dialogue

section
variable {σ : Type} (srv : PbServer) (protocol : Protocol)

/-- The requests of the calls made so far. -/
def calls (d : Dialogue σ) : List (Call × Bytes) :=
  (d.returned.map Prod.fst ++ d.call.toList).map fun call => (call, (protocol.calling call).requestBytes)

/-- What the client has not written of its request. -/
def unwritten (d : Dialogue σ) : Bytes :=
  match d.call with
  | none => []
  | some _ => d.client.conn.wbuf.message

/-- Calls for registered methods, on a connection that is to be kept, whose heads fit in the write
buffer; writes that are accepted in full; reads of something that do not end in a field that is
taken too early; and no timeout. -/
def InFull (d : Dialogue σ) : Action → Prop
  | .call call => call.connType ≠ .short ∧ srv.findServiceMethod call.service call.method = true ∧
      srv.parses call.request = true ∧
      Buffer.filled 0 d.client.conn.wbuf.data.length (protocol.calling call).requestPieces ≠ none
  | .write r => r = (.wrote d.client.conn.wbuf.readable, .wrote d.client.conn.wbuf.extraable)
  | .read r => r.bytes ≠ [] ∧ ∀ reply ∈ d.answers.getLast?,
      ¬ protocol.CutsResponse reply.length (d.client.conn.rbuf.windex + r.bytes.length)
  | .server (.event events io _) => ∀ conn ∈ d.server.conn,
      (events.epollin = true → io.read.bytes ≠ [] ∧ ∀ call ∈ d.call,
        ¬ protocol.CutsRequest call (conn.rbuf.windex + io.read.bytes.length)) ∧
      (events.epollin = false → io.head = .wrote conn.wbuf.readable ∧ io.extra = .wrote conn.wbuf.extraable)
  | .server (.drain expired _) => expired = []
  | _ => True

/-- The server reads only where `data_read_callback` is installed. -/
def Awaited (d : Dialogue σ) : Action → Prop
  | .server (.event events _ _) => events.epollin = true → ∀ conn ∈ d.server.conn, .dataRead ∈ conn.callbacks
  | _ => True

instance (d : Dialogue σ) : ∀ a, Decidable (d.InFull srv protocol a)
  | .call _ => inferInstanceAs (Decidable (_ ∧ _))
  | .write r => inferInstanceAs (Decidable (r = _))
  | .read _ => inferInstanceAs (Decidable (_ ∧ ∀ reply ∈ d.answers.getLast?, ¬ protocol.CutsResponse _ _))
  | .server (.event _ _ _) => inferInstanceAs (Decidable (∀ conn ∈ d.server.conn, _))
  | .server (.drain expired _) => inferInstanceAs (Decidable (expired = []))
  | .server .setup | .server .quiet | .server .stmt | .server .swap | .server .func | .server .timer
  | .server .poll | .server (.respond _) => isTrue trivial

instance (d : Dialogue σ) : ∀ a, Decidable (d.Awaited a)
  | .server (.event _ _ _) => inferInstanceAs (Decidable (_ → _))
  | .call _ | .write _ | .read _ | .server .setup | .server .quiet | .server .stmt | .server .swap
  | .server .func | .server (.drain _ _) | .server .timer | .server .poll | .server (.respond _) => isTrue trivial

end

variable {σ : Type} {srv : PbServer} {service : Service σ} {protocol : Protocol} {d d' : Dialogue σ}
  {object : σ} {call : Call} {a : Action} {m : SmallRpc.Move} {fd fd' : Nat} {bs : Bytes}
  {r : WriteResult × WriteResult} {r' : ReadResult}

/-- What holds of a session all along. -/
structure Live (srv : PbServer) (service : Service σ) (protocol : Protocol) (object : σ) (d : Dialogue σ) :
    Prop where
  conversing : Conversing srv service protocol object d
  fine : d.failed = none
  stays : ¬ Gone d.server
  going : Going d.server
  promised : Promised d.server
  linked : Linked d.server
  expired : d.server.phase.expired = []
  waiting : d.call ≠ none → d.client.waiting = true
  served : Served srv protocol (d.calls protocol)
  underway : ∃ bs, Underway srv protocol (d.calls protocol) bs d.server ∧
    bs ++ d.up ++ d.unwritten = ((d.calls protocol).map Prod.snd).flatten

theorem InFull.whole (h : d.InFull srv protocol a) : d.Whole protocol a := by
  cases a with
  | write r =>
      obtain rfl := h
      exact Buffer.headFirst_full _ _
  | read r => exact h.2
  | server m =>
      cases m with
      | event events io reply =>
          intro c hc
          obtain ⟨reads, writes⟩ := h c hc
          refine ⟨fun hin => ?_, fun hin => ?_⟩
          · obtain ⟨some, uncut⟩ := reads hin
            refine ⟨?_, uncut⟩
            intro again
            rw [again] at some
            exact some rfl
          · obtain ⟨head, extra⟩ := writes hin
            rw [head, extra]
            exact ⟨Buffer.headFirst_full _ _, fun _ _ _ => .inr extra⟩
      | _ => trivial
  | _ => trivial

theorem begin_goes (room : Buffer.filled 0 d.client.conn.wbuf.data.length
    (protocol.calling call).requestPieces ≠ none) : ∃ client, client.waiting = true ∧
      (protocol.calling call).packRequest d.client.conn.wbuf.clear = .ok client.conn.wbuf ∧
        d.begin protocol call = .ok { d with client, call := some call } := by
  have packs := SyncSession.packRequest_head protocol call d.client.conn.wbuf
  cases fits : Buffer.filled 0 d.client.conn.wbuf.data.length (protocol.calling call).requestPieces with
  | none => exact absurd fits room
  | some head =>
      rw [fits] at packs
      obtain ⟨wbuf, packed, _⟩ := packs
      refine ⟨{ d.client with
        conn := { d.client.conn with rbuf := d.client.conn.rbuf.clear, wbuf, ctx := some (protocol.calling call) }
        readResponseDone := false
        parseError := false }, rfl, packed, ?_⟩
      have began : (d.client.newSession protocol call).packRequest = .ok _ :=
        bind_ok.mpr ⟨wbuf, packed, rfl⟩
      rw [begin, began]
      rfl

theorem write_goes (full : d.InFull srv protocol (.write r)) : ∃ t wbuf ps d',
    d.client.conn.wbuf.writeFd r.1 r.2 = .ok (t, wbuf, ps) ∧ d.write r = .ok d' ∧
      d'.client = { d.client with conn := { d.client.conn with wbuf } } ∧
      d'.up = d.up ++ Buffer.wireBytes d.client.conn.wbuf ps ∧ d'.call = d.call ∧ d'.returned = d.returned ∧
      d'.failed = d.failed ∧ d'.server = d.server := by
  obtain rfl := full
  rcases Buffer.writeFd_ends (b := d.client.conn.wbuf) (.wrote d.client.conn.wbuf.readable)
    (.wrote d.client.conn.wbuf.extraable) with ⟨⟨t, wbuf, ps⟩, wrote⟩ | head | extra
  · refine ⟨t, wbuf, ps, { d with
      client := { d.client with conn := { d.client.conn with wbuf } }
      up := d.up ++ Buffer.wireBytes d.client.conn.wbuf ps }, wrote, ?_, rfl, rfl, rfl, rfl, rfl, rfl⟩
    simp only [write, SyncCall.writeFd, SyncCall.sent, wrote]
    rfl
  · cases head
  · cases extra

/-- What a read of the client leaves alone. -/
theorem read_keeps (read : d.read r' = .ok d') : d'.failed = d.failed ∧ d'.server = d.server ∧ d'.up = d.up ∧
    d'.client.conn.wbuf = d.client.conn.wbuf ∧ (d'.call ≠ none → d'.client.waiting = true) ∧
    (d'.call = d.call ∧ d'.returned = d.returned ∨
      ∃ call payload, d.call = some call ∧ d'.call = none ∧ d'.returned = d.returned ++ [(call, payload)]) := by
  obtain ⟨client, went, rest⟩ := bind_ok.mp read
  have wbuf := SyncCall.readFd_wbuf went
  change proceed _ = _ at rest
  unfold proceed at rest
  cases hcall : d.call with
  | none =>
      simp only [hcall] at rest
      obtain rfl := Except.ok.inj rest
      exact ⟨rfl, rfl, rfl, wbuf, absurd rfl, .inl ⟨rfl, rfl⟩⟩
  | some call =>
      simp only [hcall] at rest
      split_ifs at rest with waiting
      · obtain rfl := Except.ok.inj rest
        exact ⟨rfl, rfl, rfl, wbuf, fun _ => waiting, .inl ⟨rfl, rfl⟩⟩
      · unfold finish at rest
        cases hctx : client.conn.ctx with
        | none =>
            simp only [hctx] at rest
            cases rest
        | some ctx =>
            simp only [hctx] at rest
            obtain ⟨str, _, done⟩ := bind_ok.mp rest
            obtain rfl := Except.ok.inj done
            exact ⟨rfl, rfl, rfl, wbuf, absurd rfl, .inr ⟨call, str, rfl, rfl, rfl⟩⟩

theorem calls_at (busy : d.call = some call) :
    (d.calls protocol)[d.returned.length]? = some (call, (protocol.calling call).requestBytes) := by
  simp [calls, busy]

/-- All calls before the current one have been dispatched. -/
theorem packs_length (h : d.server.served = d.returned.map (·.1.request)) :
    d.server.packs.length = d.returned.length := by
  have length := congrArg List.length h
  rwa [Lifetime.served, List.length_map, List.length_map] at length

theorem Live.step_server (h : Live srv service protocol object d) (m : SmallRpc.Move)
    (enabled : d.server.Enabled srv m) : Step srv d.server m (d.server.next srv m) :=
  ⟨by_contra fun fault => h.stays (.inl fault), enabled, rfl⟩

theorem live_call (h : Live srv service protocol object d) (full : d.InFull srv protocol (.call call))
    (enabled : d.Enabled srv service protocol (.call call)) :
    Live srv service protocol object (d.next srv service protocol (.call call)) := by
  obtain ⟨client, waiting, packed, began⟩ := begin_goes full.2.2.2
  have after := conversing_call h.conversing enabled
  change Live srv service protocol object (d.fail (d.begin protocol call))
  rw [began] at after ⊢
  change Live srv service protocol object { d with client, call := some call }
  obtain ⟨_, free, carries⟩ := enabled
  obtain ⟨kept, found, parses, _⟩ := full
  have calls : ({ d with client, call := some call } : Dialogue σ).calls protocol =
      d.calls protocol ++ [(call, (protocol.calling call).requestBytes)] := by
    simp [Dialogue.calls, free]
  have some : (protocol.calling call).requestBytes ≠ [] :=
    carries.requests.unfinished (List.nil_append _) (by decide)
  obtain ⟨bs, underway, bytes⟩ := h.underway
  obtain ⟨up, write⟩ : d.up = [] ∧ 0 < d.client.conn.wbuf.data.length := by
    cases h.conversing.joint with
    | idle _ up _ _ write _ _ _ => exact ⟨up, write⟩
    | asking busy _ _ _ _ _ _ _ => exact absurd (busy.symm.trans free) (Option.some_ne_none _)
    | answered busy _ _ _ _ _ _ _ _ _ _ => exact absurd (busy.symm.trans free) (Option.some_ne_none _)
  have none : d.unwritten = [] := by
    rw [unwritten, free]
  have message := (packRequest_outgoing (Buffer.cleared_clear write) carries packed).message
  rw [up, none, List.append_nil, List.append_nil] at bytes
  refine ⟨after, h.fine, h.stays, h.going, h.promised, h.linked, h.expired, fun _ => waiting, ?_, bs, ?_, ?_⟩
  · rw [calls]
    exact h.served.snoc carries.requests kept found parses
  · rw [calls, bytes]
    exact (bytes ▸ underway).extend h.stays some
  · change bs ++ d.up ++ client.conn.wbuf.message = _
    rw [calls, up, message, bytes]
    simp

theorem live_write (h : Live srv service protocol object d) (full : d.InFull srv protocol (.write r))
    (enabled : d.Enabled srv service protocol (.write r)) :
    Live srv service protocol object (d.next srv service protocol (.write r)) := by
  have after := conversing_write h.conversing enabled full.whole
  obtain ⟨t, wbuf, ps, d', wrote, goes, client, up, call, returned, failed, server⟩ := write_goes full
  change Live srv service protocol object (d.fail (d.write r))
  rw [goes] at after ⊢
  change Live srv service protocol object d'
  obtain ⟨_, busy, unsent, possible⟩ := enabled
  obtain ⟨bs, underway, bytes⟩ := h.underway
  have kept : d'.calls protocol = d.calls protocol := by
    rw [calls, call, returned]
    rfl
  refine ⟨after, failed.trans h.fine, server ▸ h.stays, server ▸ h.going, server ▸ h.promised, server ▸ h.linked,
    server ▸ h.expired, fun busy => ?_, kept ▸ h.served, bs, by rw [server, kept]; exact underway, ?_⟩
  · rw [client]
    exact h.waiting (call ▸ busy)
  cases h.conversing.joint with
  | idle none _ _ _ _ _ _ _ => exact absurd none busy
  | @asking call' w m some carries hears out down side served same =>
      obtain ⟨m', split, out'⟩ := out.write wrote possible full.whole
      have before : d.unwritten = m := by
        rw [unwritten, some]
        exact out.message
      have rest : d'.unwritten = m' := by
        rw [unwritten, call, some, client]
        exact out'.message
      rw [up, kept, rest, ← List.append_assoc, List.append_assoc _ _ m', ← split, ← before]
      exact bytes
  | answered _ _ _ _ out _ _ _ _ _ _ =>
      have done := SyncCall.unsent_iff.mpr (out.done_iff.mp rfl)
      rw [done] at unsent
      cases unsent

theorem readFd_some {b : Buffer} (some : r'.bytes ≠ []) : ∃ n rbuf, b.readFd r' = .ok (n, rbuf) := by
  cases r' with
  | data bs => exact ⟨_, _, rfl⟩
  | _ => exact absurd rfl some

theorem live_read (h : Live srv service protocol object d) (full : d.InFull srv protocol (.read r'))
    (enabled : d.Enabled srv service protocol (.read r')) :
    Live srv service protocol object (d.next srv service protocol (.read r')) := by
  have after := conversing_read h.conversing enabled full.2
  obtain ⟨n, rbuf, read⟩ := readFd_some (b := d.client.conn.rbuf) full.1
  obtain ⟨d', went, _⟩ := joint_read h.conversing enabled full.2 read
  obtain ⟨failed, server, up, wbuf, waiting, moved⟩ := read_keeps went
  change Live srv service protocol object (d.fail (d.read r'))
  rw [went] at after ⊢
  change Live srv service protocol object d'
  obtain ⟨bs, underway, bytes⟩ := h.underway
  have sent : d.client.conn.wbuf.message = [] := by
    obtain ⟨_, busy, _, _, _, arrived⟩ := enabled
    cases h.conversing.joint with
    | idle none _ _ _ _ _ _ _ => exact absurd none busy
    | asking _ _ _ _ down _ _ _ =>
        rw [down] at arrived
        exact absurd (List.prefix_nil.mp arrived) full.1
    | answered _ _ _ _ out _ _ _ _ _ _ => exact out.message
  have kept : d'.calls protocol = d.calls protocol ∧ d'.unwritten = d.unwritten := by
    rcases moved with ⟨call, returned⟩ | ⟨call, payload, busy, free, returned⟩
    · exact ⟨by rw [calls, call, returned]; rfl, by rw [unwritten, call, wbuf]; rfl⟩
    · refine ⟨by simp [calls, busy, free, returned], ?_⟩
      rw [unwritten, unwritten, free, busy]
      exact sent.symm
  refine ⟨after, failed.trans h.fine, server ▸ h.stays, server ▸ h.going, server ▸ h.promised, server ▸ h.linked,
    server ▸ h.expired, waiting, kept.1 ▸ h.served, bs, ?_, ?_⟩
  · rw [server, kept.1]
    exact underway
  · rw [up, kept.1, kept.2]
    exact bytes

/-- Nothing of a guarded session stops the server. -/
theorem InFull.goes (full : d.InFull srv protocol (.server m)) (enabled : d.server.Enabled srv m)
    (expired : d.server.phase.expired = []) : ¬ Stops m := by
  cases m with
  | event events io reply =>
      obtain ⟨_, _, _, c, hc, _⟩ := enabled
      obtain ⟨reads, writes⟩ := full c hc
      by_cases hin : events.epollin = true
      · intro stops
        rcases (if_pos hin).mp stops with eof | failed
        · exact (reads hin).1 (by rw [eof]; rfl)
        · exact (reads hin).1 (by rw [failed]; rfl)
      · intro stops
        obtain ⟨head, extra⟩ := writes (Bool.eq_false_of_not_eq_true hin)
        rcases (if_neg hin).mp stops with failed | failed
        · cases head.symm.trans failed
        · cases extra.symm.trans failed
  | timer => exact absurd expired enabled.2
  | _ => exact id

/-- What a guarded read of the server takes belongs to the request of the call. -/
theorem live_separate (h : Live srv service protocol object d) (full : d.InFull srv protocol (.server m))
    (awaited : d.Awaited (.server m)) (enabled : d.server.Enabled srv m) (honest : d.Honest srv service m) :
    Separate protocol (d.calls protocol) d.server m := by
  cases m with
  | event events io reply =>
      intro hin _ _ c hc p hp
      obtain ⟨some, uncut⟩ := (full c hc).1 hin
      have arrived := honest_taken honest
      rw [taken_event, if_pos hin] at arrived
      have up : d.up ≠ [] := fun none => some (List.prefix_nil.mp (none ▸ arrived))
      cases h.conversing.joint with
      | idle _ none _ _ _ _ _ _ => exact absurd none up
      | answered _ _ _ _ _ none _ _ _ _ _ => exact absurd none up
      | @asking call w m busy carries hears out down side served same =>
          rw [packs_length served, calls_at busy] at hp
          obtain rfl := Option.some.inj hp
          rcases side with gone | ⟨between | ⟨_, _, registered⟩, whole⟩
          · exact absurd gone h.stays
          · obtain ⟨rest, _⟩ := enabled
            have windex := between.windex rest.1 hc
            refine ⟨?_, ?_⟩
            · have le := arrived.length_le
              rw [windex, ← whole, List.length_append, List.length_append]
              omega
            · rw [if_pos (awaited hin c hc)]
              exact uncut call busy
          · rw [registered_deaf registered enabled] at hin
            cases hin
  | _ => trivial

theorem live_serve (sync : srv.async = false) (h : Live srv service protocol object d)
    (full : d.InFull srv protocol (.server m)) (awaited : d.Awaited (.server m))
    (enabled : d.Enabled srv service protocol (.server m)) :
    Live srv service protocol object (d.next srv service protocol (.server m)) := by
  have after := conversing_serve h.conversing enabled full.whole
  obtain ⟨fine, enabled, honest⟩ := enabled
  have step := h.step_server m enabled
  obtain ⟨bs, underway, bytes⟩ := h.underway
  obtain ⟨up', arrived⟩ := honest_taken honest
  have dropped : d.up.drop (taken m).length = up' := by
    rw [← arrived, List.drop_left]
  have sent : bs ++ taken m <+: ((d.calls protocol).map Prod.snd).flatten := by
    rw [← bytes, ← arrived]
    simp only [List.append_assoc]
    exact ⟨up' ++ d.unwritten, by simp⟩
  obtain ⟨underway', goes⟩ := underway_step sync h.served underway step
    (live_separate h full awaited enabled honest) sent
  have long : Overlong m → (d.server.next srv m).packs.length = d.server.packs.length := by
    intro long
    by_contra more
    obtain ⟨events, io, reply, pack, hm, _, packs⟩ := step_packs step more
    have small := honest_small honest hm packs
    subst hm
    exact absurd long (Nat.not_le.mpr small)
  obtain ⟨stays, going⟩ := goes h.stays h.going (full.goes enabled h.expired) long
  refine ⟨after, h.fine, stays, going, ?_, linked_step h.linked step, ?_, h.waiting, h.served, bs ++ taken m,
    underway', ?_⟩
  · have undeleted := @stays_undeleted _ m h.stays underway.sound.sync
    exact promised_step h.promised (fun deletes => absurd deletes undeleted) step
  · exact expired_step h.expired step fun expired left hm => by
      subst hm
      exact full
  · change bs ++ taken m ++ d.up.drop _ ++ d.unwritten = ((d.calls protocol).map Prod.snd).flatten
    rw [dropped, ← bytes, ← arrived]
    simp only [List.append_assoc]

theorem live_start (offered : protocol ∈ srv.protocols) :
    Live srv service protocol object (connected srv fd fd' object) := by
  refine ⟨conversing_start offered, rfl, ?_, fun _ _ _ mem => absurd mem List.not_mem_nil, promised_start,
    linked_start, rfl,
    absurd rfl, ⟨nofun, nofun, nofun, nofun⟩, [], underway_start offered ⟨nofun, nofun, nofun, nofun⟩, rfl⟩
  exact not_gone rfl rfl rfl

theorem live_step (sync : srv.async = false) (h : Live srv service protocol object d)
    (full : d.InFull srv protocol a) (awaited : d.Awaited a)
    (step : (dialogue srv service protocol fd fd' object).step d a d') : Live srv service protocol object d' := by
  obtain ⟨enabled, rfl⟩ := step
  cases a with
  | call call => exact live_call h full enabled
  | write r => exact live_write h full enabled
  | read r => exact live_read h full enabled
  | server m => exact live_serve sync h full awaited enabled

theorem live_run {es : List (Dialogue σ × Action)} (sync : srv.async = false) (offered : protocol ∈ srv.protocols)
    (run : Run (dialogue srv service protocol fd fd' object) es d) (full : Guarded (InFull srv protocol) es)
    (awaited : Guarded Awaited es) : Live srv service protocol object d := by
  apply run.invariant (full.and awaited)
  · rintro _ rfl
    exact live_start offered
  · exact fun h guard => live_step sync h guard.1 guard.2

end Dialogue
end SmallRpc
