import SmallRpc.HttpFraming

/-! The HTTP parsers follow the head machine, pass by pass, as long as the indices of
the buffer are in order; and they leave them so. -/
namespace SmallRpc
open Resumable
open FirstMatch (firstMatch firstMatch_bound firstMatch_singleton_none firstMatch_singleton_some
  firstMatch_eq_some_iff)

/-- The context without its views. -/
def HTTPContext.bare (c : HTTPContext) : HTTPContext :=
  { c with payloadView := .null, httpUrl := .null, httpVersion := .null, requestLine := .null }

namespace Buffer
open HTTPContext (lineEnd lineMethod)
open HTTPParser (maxHeadlineSize)
variable {b : Buffer} {line : Bytes} {i k n : Nat}

/-- A window inside a line in front of the unread bytes. -/
theorem Wf.window_line (hline : line <+: b.unread) (hk : i + k ≤ line.length) :
    (b.unread.drop i).take k = (line.drop i).take k := by
  obtain ⟨rest, hrest⟩ := hline
  rw [← hrest, List.drop_append_of_le_length (by omega),
    List.take_append_of_le_length (by rw [List.length_drop]; omega)]

theorem Wf.copy_line (h : b.Wf) (hline : line <+: b.unread) (hk : i + k ≤ line.length) :
    b.copy (b.rindex + i) k = .ok ((line.drop i).take k) := by
  rw [h.copy_eq (hk.trans hline.length_le), window_line hline hk]

theorem Wf.search_line (h : b.Wf) (hline : line <+: b.unread) (hk : i + k ≤ line.length)
    (pat : Bytes) :
    b.search pat (b.rindex + i) k = .ok (firstMatch pat ((line.drop i).take k)) := by
  rw [h.search_eq (hk.trans hline.length_le), window_line hline hk]

theorem Wf.findCrlf_eq (h : b.Wf) :
    b.findCrlf (min b.readable maxHeadlineSize) = .ok (lineEnd b.unread) := by
  have found := h.search_eq (k := 0) (n := min b.readable maxHeadlineSize)
    (by rw [h.readable_eq]; omega) crlf
  rw [Nat.add_zero, List.drop_zero] at found
  rw [findCrlf, found, lineEnd, h.readable_eq]
  congr 2
  rw [← List.take_take, List.take_of_length_le (by rw [List.length_take]; omega)]

/-- The line break that ends a line. -/
theorem lineEnd_crlf {w : Bytes} (h : lineEnd w = some n) : w[n]? = some 13 := by
  have hb := HTTPContext.lineEnd_bound h
  obtain ⟨here, _, _⟩ := firstMatch_eq_some_iff.mp h
  obtain ⟨rest, hrest⟩ := here
  have at0 := congrArg (fun l => l[0]?) hrest
  simp only [crlf, List.cons_append, List.getElem?_cons_zero, List.getElem?_drop, Nat.add_zero,
    List.getElem?_take] at at0
  split_ifs at at0
  exact at0.symm

/-- A comparison with a text that has no line break in it does not see stale storage. -/
theorem Wf.startsWith_eq (h : b.Wf) {text : Bytes}
    (known : text.length ≤ b.unread.length ∨ 13 ∈ b.unread ∧ 13 ∉ text) :
    b.startsWith text = .ok (text.isPrefixOf b.unread) := by
  have hlen := h.unread_length
  have ho := h.order
  have hb := h.bound
  by_cases hle : text.length ≤ b.unread.length
  · have front : (b.data.drop b.rindex).take text.length = b.unread.take text.length := by
      have := h.window (k := 0) (n := text.length) (by omega)
      rwa [Nat.add_zero, List.drop_zero] at this
    have whole : (b.unread.take text.length).length = text.length := by
      rw [List.length_take, Nat.min_eq_left hle]
    unfold startsWith
    simp only [front]
    by_cases heq : b.unread.take text.length = text
    · have hp : text.isPrefixOf b.unread = true := by
        rw [List.isPrefixOf_iff_prefix, ← heq]
        exact List.take_prefix _ _
      rw [if_pos heq, hp]
    · have hp : text.isPrefixOf b.unread = false := by
        rw [Bool.eq_false_iff, ne_eq, List.isPrefixOf_iff_prefix]
        exact fun hpre => heq (List.prefix_iff_eq_take.mp hpre).symm
      rw [if_neg heq, if_neg fun hpre => heq (hpre.eq_of_length whole), hp]
  · obtain ⟨cr, hcr⟩ := known.resolve_left hle
    have front : 13 ∈ (b.data.drop b.rindex).take text.length := by
      have window := h.window (k := 0) (n := b.unread.length) (by omega)
      rw [Nat.add_zero, List.drop_zero, List.take_length] at window
      have hpre : (b.data.drop b.rindex).take b.unread.length <+:
          (b.data.drop b.rindex).take text.length := List.take_prefix_take_left (by omega)
      rw [window] at hpre
      exact hpre.subset cr
    have hp : text.isPrefixOf b.unread = false := by
      rw [Bool.eq_false_iff, ne_eq, List.isPrefixOf_iff_prefix]
      exact fun hpre => hle hpre.length_le
    unfold startsWith
    simp only
    have differs : (b.data.drop b.rindex).take text.length ≠ text := fun heq =>
      hcr (by rwa [heq] at front)
    rw [if_neg differs, if_neg fun hpre => hcr (hpre.subset front), hp]

theorem Wf.findMethod_eq (h : b.Wf) {ms : List HTTPMethod}
    (known : ∀ m ∈ ms, m.name.length ≤ b.unread.length ∨ 13 ∈ b.unread ∧ 13 ∉ m.name) :
    b.findMethod ms = .ok (ms.find? fun m => m.name.isPrefixOf b.unread) := by
  induction ms with
  | nil => rfl
  | cons m ms ih =>
      rw [findMethod, h.startsWith_eq (known m List.mem_cons_self), List.find?_cons]
      simp only [bind, Except.bind, pure, Except.pure]
      cases hm : m.name.isPrefixOf b.unread with
      | true => rfl
      | false => exact ih fun m' hm' => known m' (List.mem_cons_of_mem _ hm')

/-- With a complete line the method is looked for in that line. -/
theorem Wf.findMethod_line (h : b.Wf) (hl : lineEnd b.unread = some n) :
    b.findMethod HTTPMethod.tried = .ok (lineMethod (b.unread.take n)) := by
  have cr := lineEnd_crlf hl
  have names : ∀ m ∈ HTTPMethod.tried, (13 : UInt8) ∉ m.name := by decide
  rw [h.findMethod_eq fun m hm => Or.inr ⟨List.mem_of_getElem? cr, names m hm⟩]
  have agree : ∀ m ∈ HTTPMethod.tried,
      m.name.isPrefixOf b.unread = m.name.isPrefixOf (b.unread.take n) := by
    intro m hm
    rw [Bool.eq_iff_iff, List.isPrefixOf_iff_prefix, List.isPrefixOf_iff_prefix]
    refine ⟨fun hpre => ?_, fun hpre => hpre.trans (List.take_prefix _ _)⟩
    refine List.prefix_of_prefix_length_le hpre (List.take_prefix _ _) ?_
    by_contra hlong
    refine names m hm (List.mem_of_getElem? (i := n) ?_)
    rw [List.length_take] at hlong
    have := HTTPContext.lineEnd_bound hl
    rw [← cr]
    obtain ⟨rest, hrest⟩ := hpre
    rw [← hrest, List.getElem?_append_left (by omega)]
  exact congrArg Except.ok (List.find?_congr agree)

end Buffer

namespace HTTPParser
open HTTPContext

variable {p q : HTTPParser} {s s' t : HTTPContext} {w x line : Bytes} {n k : Nat}

structure Matches (p : HTTPParser) (s : HTTPContext) (w : Bytes) : Prop where
  wf : p.buf.Wf
  unread : p.buf.unread = w
  bare : p.ctx.bare = s

theorem Matches.readable (h : Matches p s w) : p.buf.readable = w.length := by
  rw [h.wf.readable_eq, h.unread]

/-- What a line that is turned down leaves as it was. -/
structure Kept (c d : HTTPContext) : Prop where
  stage : d.stage = c.stage
  headers : d.headers = c.headers
  bodySize : d.bodySize = c.bodySize
  connType : d.connType = c.connType

theorem Kept.refl (c : HTTPContext) : Kept c c := ⟨rfl, rfl, rfl, rfl⟩

/-- How one pass of a parser answers a verdict of the head machine. -/
inductive Follows (p : HTTPParser) (w : Bytes) (pass : Except Fault (Flow HTTPParser)) :
    HeadVerdict → Prop
  | more : pass = .ok (.ret .noEnoughData p) → Follows p w pass .more
  | stop {q : HTTPParser} : pass = .ok (.ret .error q) → q.buf = p.buf → Kept p.ctx q.ctx →
      Follows p w pass (.stop .failed)
  | advance {q : HTTPParser} {s : HTTPContext} {n : Nat} : pass = .ok (.again q) →
      Matches q s (w.drop n) → q.buf = p.buf.retrieve n → Follows p w pass (.advance s n)

theorem Matches.retrieve (h : Matches p s w) (hn : n ≤ w.length) :
    Matches (p.retrieve n) s (w.drop n) :=
  ⟨h.wf.retrieve (by rw [h.unread]; exact hn),
    by rw [← h.unread]; exact Buffer.unread_retrieve n, h.bare⟩

/-- The end of the line in front, or why there is none. -/
theorem Matches.nextLine (h : Matches p s w) : p.nextLine maxHeadlineSize = .ok
    (match lineEnd w with
      | none => .inl (if w.length < maxHeadlineSize then .noEnoughData else .error)
      | some n => .inr n) := by
  have found := h.wf.findCrlf_eq
  rw [h.unread] at found
  unfold HTTPParser.nextLine
  simp only [found, bind, Except.bind, pure, Except.pure]
  rw [h.readable]
  by_cases h0 : w.length = 0
  · have hw : w = [] := List.length_eq_zero_iff.mp h0
    subst hw
    rfl
  · have hpos : min w.length maxHeadlineSize ≠ 0 := by
      have : maxHeadlineSize = 65536 := rfl
      omega
    rw [if_neg hpos]
    cases lineEnd w with
    | some n => rfl
    | none =>
        by_cases hlt : w.length < maxHeadlineSize
        · simp only [hlt, if_true]
          rw [if_neg (by omega)]
        · simp only [hlt, if_false]
          rw [if_pos (by omega)]

theorem lineMethod_length (h : w.length ≤ n) :
    ((lineMethod w).elim 0 fun m => m.name.length) ≤ n := by
  unfold lineMethod
  cases hf : HTTPMethod.tried.find? fun m => m.name.isPrefixOf w with
  | none => exact Nat.zero_le _
  | some m =>
      have hpre := List.find?_some hf
      rw [List.isPrefixOf_iff_prefix] at hpre
      exact hpre.length_le.trans h

theorem parseResponseLine_follows (h : Matches p s w) (h0 : s.stage = 0) :
    Follows p w (advance <$> p.parseResponseLine) (responseLineVerdict s w) := by
  obtain rfl := h.bare
  have hp0 : p.ctx.stage = 0 := h0
  unfold parseResponseLine responseLineVerdict onLine
  rw [h.nextLine]
  cases hl : lineEnd w with
  | none =>
      by_cases hlt : w.length < maxHeadlineSize
      · simp only [hlt, if_true]
        exact .more rfl
      · simp only [hlt, if_false]
        exact .stop rfl rfl (.refl _)
  | some n =>
      have hb := lineEnd_bound hl
      have moved := h.retrieve (n := n + 2) (by omega)
      refine .advance rfl ⟨moved.wf, moved.unread, ?_⟩ rfl
      simp only [retrieve, HTTPContext.bare, hp0]

theorem take_one_eq {w : Bytes} {i : Nat} {c : UInt8} :
    (w.drop i).take 1 = [c] ↔ w[i]? = some c := by
  rw [← List.head?_drop]
  cases w.drop i <;> simp

/-- The service and method of a target that lies `i` bytes into a line, in front of a blank. -/
theorem takeService_eq (wf : p.buf.Wf) (hline : line <+: p.buf.unread) {i tmp : Nat}
    (blank : (line.drop i)[tmp]? = some 32) (bare : p.ctx.bare = s) :
    ∃ q, p.takeService (p.buf.rindex + i) tmp = .ok q ∧ q.buf = p.buf ∧
      Kept p.ctx q.ctx ∧ q.ctx.bare = takeTarget s (line.drop i) tmp := by
  have hi : i + tmp < line.length := by
    have := (List.getElem?_eq_some_iff.mp blank).1
    rw [List.length_drop] at this
    omega
  have found := wf.search_line (i := i + 1) (k := tmp) hline (by omega) [47]
  rw [← Nat.add_assoc, ← List.drop_drop] at found
  unfold takeService takeTarget
  rw [found]
  cases hf : firstMatch [47] (((line.drop i).drop 1).take tmp) with
  | none => exact ⟨p, rfl, rfl, .refl _, bare⟩
  | some tmp2 =>
      obtain ⟨hb, slash, _⟩ := firstMatch_singleton_some hf
      rw [List.length_take, List.length_drop, List.length_drop] at hb
      rw [List.getElem?_take, if_pos (by omega), List.getElem?_drop] at slash
      have inner : tmp2 + 2 ≤ tmp := by
        by_contra hlast
        rw [show 1 + tmp2 = tmp by omega, blank] at slash
        exact absurd slash (by decide)
      have service := wf.copy_line (i := i + 1) (k := tmp2) hline (by omega)
      have method := wf.copy_line (i := i + (1 + tmp2 + 1)) (k := sizeSub tmp (tmp2 + 2)) hline
        (by rw [Buffer.sizeSub_of_le inner]; omega)
      rw [← Nat.add_assoc, ← List.drop_drop] at service
      rw [← List.drop_drop] at method
      rw [show p.buf.rindex + (i + (1 + tmp2 + 1)) = p.buf.rindex + i + 1 + tmp2 + 1 by omega]
        at method
      simp only [bind, Except.bind, pure, Except.pure, service, method]
      refine ⟨_, rfl, rfl, ⟨rfl, rfl, rfl, rfl⟩, ?_⟩
      rw [← bare]
      rfl

/-- The rest of the request line is taken apart as the machine does. -/
theorem Matches.parseUrl (h : Matches p s w) (hl : lineEnd w = some n) (offset : Nat)
    (ho : offset ≤ n) : match takeUrl s (w.take n) offset with
      | none => ∃ q, p.parseUrl n offset = .ok (.error, q) ∧ q.buf = p.buf ∧ Kept p.ctx q.ctx
      | some s' => ∃ q, p.parseUrl n offset = .ok (.partSuccess, q) ∧
          q.buf = p.buf.retrieve (n + 2) ∧ q.ctx.stage = p.ctx.stage ∧ q.ctx.bare = s' := by
  have hb := lineEnd_bound hl
  have cr := Buffer.lineEnd_crlf hl
  obtain rfl := h.bare
  have hlen : (w.take n).length = n := by
    rw [List.length_take]
    omega
  have hline : w.take n <+: p.buf.unread := by
    rw [h.unread]
    exact List.take_prefix _ _
  generalize hL : w.take n = text at hlen hline ⊢
  have blank : p.buf.copy (p.buf.rindex + offset) 1 = .ok ((w.drop offset).take 1) := by
    rw [h.wf.copy_eq (by rw [h.unread]; omega), h.unread]
  have same : w[offset]? = some 32 ↔ text[offset]? = some 32 := by
    rw [← hL, List.getElem?_take]
    split_ifs with hlt
    · rfl
    · rw [show offset = n by omega, cr]
      simp
  unfold HTTPParser.parseUrl takeUrl
  simp only [blank, bind, Except.bind, pure, Except.pure, take_one_eq, ne_eq, same]
  by_cases h32 : text[offset]? = some 32
  · have hlt : offset < n := by
      rw [← hlen]
      exact (List.getElem?_eq_some_iff.mp h32).1
    simp only [h32, not_true_eq_false, if_false]
    have url := h.wf.search_line (i := offset + 1) (k := n - (offset + 1)) hline (by omega) [32]
    have hurl : (text.drop (offset + 1)).take (n - (offset + 1)) = text.drop (offset + 1) :=
      List.take_of_length_le (by rw [List.length_drop]; omega)
    rw [hurl] at url
    rw [Buffer.sizeSub_of_le hlt, url]
    cases hf : firstMatch [32] (text.drop (offset + 1)) with
    | none => exact ⟨p, rfl, rfl, .refl _⟩
    | some tmp =>
        obtain ⟨htmp, space, _⟩ := firstMatch_singleton_some hf
        rw [List.length_drop, hlen] at htmp
        have start := h.wf.copy_line (i := offset + 1) (k := 1) hline (by omega)
        have head : ((text.drop (offset + 1)).take 1 = [47]) ↔
            (text.drop (offset + 1)).head? = some 47 := by
          rw [take_one_eq, List.head?_drop]
        by_cases h0 : tmp = 0
        · simp only [h0, if_true, true_or]
          exact ⟨p, rfl, rfl, .refl _⟩
        simp only [h0, if_false, start, head, false_or]
        by_cases h47 : (text.drop (offset + 1)).head? = some 47
        · simp only [h47, not_true_eq_false, if_false, false_or]
          have viewed : Matches { p with ctx := { p.ctx with
              httpUrl := BufferView.ofLength (p.buf.rindex + (offset + 1)) tmp } } p.ctx.bare w :=
            ⟨h.wf, h.unread, rfl⟩
          obtain ⟨q, hq, hbuf, hkept, hbare⟩ := takeService_eq viewed.wf hline space viewed.bare
          have version := h.wf.search_line (i := offset + 1 + tmp + 1)
            (k := n - (offset + 1 + tmp + 1)) hline (by omega) [32]
          have rest : (text.drop (offset + 1 + tmp + 1)).take (n - (offset + 1 + tmp + 1)) =
              (text.drop (offset + 1)).drop (tmp + 1) := by
            rw [List.take_of_length_le (by rw [List.length_drop]; omega), List.drop_drop,
              Nat.add_assoc (offset + 1)]
          rw [rest] at version
          simp only [hq, hbuf, version, Buffer.sizeSub_of_le (show offset + 1 + tmp + 1 ≤ n by omega)]
          cases hv : firstMatch [32] ((text.drop (offset + 1)).drop (tmp + 1)) with
          | none =>
              rw [if_neg (firstMatch_singleton_none.mp hv)]
              exact ⟨_, rfl, rfl, hkept.stage, hbare⟩
          | some v =>
              have hmem : 32 ∈ (text.drop (offset + 1)).drop (tmp + 1) := by
                by_contra hnot
                rw [firstMatch_singleton_none.mpr hnot] at hv
                cases hv
              rw [if_pos hmem]
              exact ⟨q, rfl, hbuf, hkept.stage, hkept.headers, hkept.bodySize, hkept.connType⟩
        · simp only [h47, not_false_eq_true, if_true, true_or]
          exact ⟨p, rfl, rfl, .refl _⟩
  · simp only [h32, not_false_eq_true, if_true]
    exact ⟨p, rfl, rfl, .refl _⟩

theorem parseRequestLine_follows (h : Matches p s w) (h0 : s.stage = 0) :
    Follows p w (advance <$> p.parseRequestLine) (requestLineVerdict s w) := by
  have bare := h.bare
  have hp0 : p.ctx.stage = 0 := by rw [← h0, ← bare]; rfl
  unfold parseRequestLine requestLineVerdict onLine
  rw [h.nextLine]
  cases hl : lineEnd w with
  | none =>
      by_cases hlt : w.length < maxHeadlineSize
      · simp only [hlt, if_true]
        exact .more rfl
      · simp only [hlt, if_false]
        exact .stop rfl rfl (.refl _)
  | some n =>
      have hb := lineEnd_bound hl
      have found := h.wf.findMethod_line (by rw [h.unread]; exact hl)
      rw [h.unread] at found
      simp only [bind, Except.bind, found, pure, Except.pure, takeRequestLine]
      have same : s.httpMethod = p.ctx.httpMethod := by rw [← bare]; rfl
      rw [same]
      by_cases hnone : (lineMethod (w.take n)).or p.ctx.httpMethod = none
      · rw [if_pos hnone, if_pos hnone]
        exact .stop rfl rfl ⟨rfl, rfl, rfl, rfl⟩
      rw [if_neg hnone, if_neg hnone]
      have here : Matches { p with ctx := { p.ctx with
          httpMethod := (lineMethod (w.take n)).or p.ctx.httpMethod } }
          { s with httpMethod := (lineMethod (w.take n)).or p.ctx.httpMethod } w :=
        ⟨h.wf, h.unread, by rw [← bare]; rfl⟩
      have url := here.parseUrl hl ((lineMethod (w.take n)).elim 0 fun m => m.name.length)
        (lineMethod_length (by rw [List.length_take]; omega))
      generalize hturl : takeUrl _ (w.take n) _ = taken at url ⊢
      cases taken with
      | none =>
          obtain ⟨q, hq, hbuf, hkept⟩ := url
          rw [hq]
          exact .stop rfl hbuf ⟨hkept.stage, hkept.headers, hkept.bodySize, hkept.connType⟩
      | some s' =>
          obtain ⟨q, hq, hbuf, hstage, hbare⟩ := url
          rw [hq]
          have moved := h.retrieve (n := n + 2) (by omega)
          refine .advance rfl ⟨?_, ?_, ?_⟩ hbuf
          · show q.buf.Wf
            rw [hbuf]
            exact moved.wf
          · show q.buf.unread = _
            rw [hbuf]
            exact moved.unread
          · show { q.ctx.bare with stage := q.ctx.stage + 1 } = _
            rw [hbare, hstage]
            simp only [hp0]

/-- One pass of the header loop: the empty line ends the loop with `PartSuccess`. -/
inductive FollowsHeader (p : HTTPParser) (w : Bytes) (pass : Except Fault (Flow HTTPParser)) :
    HeadVerdict → Prop
  | more : pass = .ok (.ret .noEnoughData p) → FollowsHeader p w pass .more
  | stop : pass = .ok (.ret .error p) → FollowsHeader p w pass (.stop .failed)
  | thrown : pass = .error .thrown → FollowsHeader p w pass (.stop .thrown)
  | line {q : HTTPParser} {s : HTTPContext} {n : Nat} : pass = .ok (.again q) →
      Matches q s (w.drop n) → q.buf = p.buf.retrieve n → s.stage = 1 →
      FollowsHeader p w pass (.advance s n)
  | last {q : HTTPParser} {s : HTTPContext} {n : Nat} : pass = .ok (.ret .partSuccess q) →
      Matches { q with ctx := { q.ctx with stage := q.ctx.stage + 1 } } s (w.drop n) →
      q.buf = p.buf.retrieve n → s.stage = 2 → FollowsHeader p w pass (.advance s n)

theorem stoi_fault {text : Bytes} {f : Fault} (h : stoi text = .error f) : f = .thrown := by
  unfold stoi at h
  simp only at h
  split_ifs at h <;> cases h
  all_goals rfl

/-- An ignored header, one that is recorded, or one that `stoi` rejects. -/
theorem addHeader_eq (c : HTTPContext) (key value : Bytes) :
    c.addHeader key value = .ok c ∨
      (∃ bodySize connType, c.addHeader key value = .ok
        { c with bodySize, connType, headers := c.headers ++ [(key, value)] } ∧
        c.headers.lookup key = none ∧
        if key = ascii "Content-Length" then stoi value = .ok bodySize
        else bodySize = c.bodySize) ∨
      c.addHeader key value = .error .thrown := by
  unfold addHeader
  by_cases fresh : key ≠ [] ∧ value ≠ [] ∧ c.headers.lookup key = none
  · rw [if_pos fresh]
    by_cases len : key = ascii "Content-Length"
    · rw [if_pos len]
      cases hs : stoi value with
      | error f =>
          obtain rfl := stoi_fault hs
          exact Or.inr (Or.inr rfl)
      | ok v => exact Or.inr (Or.inl ⟨v, _, rfl, fresh.2.2, by rw [if_pos len]⟩)
    · rw [if_neg len]
      exact Or.inr (Or.inl ⟨_, _, rfl, fresh.2.2, by rw [if_neg len]⟩)
  · rw [if_neg fresh]
    exact Or.inl rfl

theorem addHeader_bare (c : HTTPContext) (key value : Bytes) :
    c.bare.addHeader key value = HTTPContext.bare <$> c.addHeader key value := by
  by_cases fresh : key ≠ [] ∧ value ≠ [] ∧ c.headers.lookup key = none
  · have left : c.bare.addHeader key value = _ := if_pos fresh
    have right : c.addHeader key value = _ := if_pos fresh
    rw [left, right]
    by_cases len : key = ascii "Content-Length"
    · rw [if_pos len, if_pos len]
      cases stoi value <;> rfl
    · rw [if_neg len, if_neg len]
      rfl
  · have left : c.bare.addHeader key value = _ := if_neg fresh
    have right : c.addHeader key value = _ := if_neg fresh
    rw [left, right]
    rfl

theorem headerLine_follows (h : Matches p s w) (h1 : s.stage = 1) :
    FollowsHeader p w p.headerLine (headerVerdict s w) := by
  have bare := h.bare
  have hp1 : p.ctx.stage = 1 := by rw [← h1, ← bare]; rfl
  unfold headerLine headerVerdict onLine
  rw [show maxHeaderSize = maxHeadlineSize from rfl, h.nextLine]
  cases hl : lineEnd w with
  | none =>
      by_cases hlt : w.length < maxHeadlineSize
      · simp only [hlt, if_true]
        exact .more rfl
      · simp only [hlt, if_false]
        exact .stop rfl
  | some n =>
      have hb := lineEnd_bound hl
      have moved := h.retrieve (n := n + 2) (by omega)
      cases n with
      | zero =>
          refine .last rfl ⟨moved.wf, moved.unread, ?_⟩ rfl rfl
          show { p.ctx.bare with stage := p.ctx.stage + 1 } = _
          rw [bare, hp1]
      | succ n =>
          simp only [bind, Except.bind, pure, Except.pure, Nat.succ_ne_zero, if_false]
          have hlen : (w.take (n + 1)).length = n + 1 := by
            rw [List.length_take]
            omega
          have hline : w.take (n + 1) <+: p.buf.unread := by
            rw [h.unread]
            exact List.take_prefix _ _
          generalize w.take (n + 1) = line at hlen hline ⊢
          have found := h.wf.search_line (i := 0) (k := n + 1) hline (by omega) [58]
          rw [Nat.add_zero, List.drop_zero, ← hlen, List.take_length, hlen] at found
          rw [found, takeHeader]
          cases hf : firstMatch [58] line with
          | none => exact .stop rfl
          | some tmp =>
              cases tmp with
              | zero => exact .stop rfl
              | succ tmp =>
                  have hbound := (firstMatch_singleton_some hf).1
                  have key := h.wf.copy_line (i := 0) (k := tmp + 1) hline (by omega)
                  have value := h.wf.copy_line (i := tmp + 1 + 1) (k := n + 1 - (tmp + 1) - 1) hline
                    (by omega)
                  rw [Nat.add_zero, List.drop_zero] at key
                  rw [List.take_of_length_le (by rw [List.length_drop]; omega), ← Nat.add_assoc]
                    at value
                  simp only [key, value]
                  rw [← bare, addHeader_bare]
                  rcases addHeader_eq p.ctx (trim (line.take (tmp + 1)))
                    (trim (line.drop (tmp + 1 + 1))) with hadd | ⟨_, _, hadd, _⟩ | hadd
                  · rw [hadd]
                    exact .line rfl ⟨moved.wf, moved.unread, rfl⟩ rfl hp1
                  · rw [hadd]
                    exact .line rfl ⟨moved.wf, moved.unread, rfl⟩ rfl hp1
                  · rw [hadd]
                    exact .thrown rfl

/-- `stage` is a parser whose head is read as `M` says. -/
structure Implements (stage : HTTPParser → Except Fault (Flow HTTPParser))
    (M : Machine UInt8 HTTPContext HeadEnd) : Prop where
  line : ∀ {p s w}, Matches p s w → s.stage = 0 → Follows p w (stage p) (M.stage s w)
  lineNext : ∀ {s w s' n}, s.stage = 0 → M.stage s w = .advance s' n → s'.stage = 1
  headers : ∀ {s w}, s.stage = 1 → M.stage s w = headerVerdict s w
  headed : ∀ {s w}, 2 ≤ s.stage → M.stage s w = .stop .headed
  headersStage : ∀ {p}, p.ctx.stage = 1 → stage p = advance <$> p.parseHeaders
  bodyStage : ∀ {p}, p.ctx.stage = 2 → stage p = .ok (advance p.parseBody)

theorem request_implements : Implements requestStage HTTPContext.request where
  line {p s w} h h0 := by
    have hp : p.ctx.stage = 0 := by rw [← h0, ← h.bare]; rfl
    show Follows p w (requestStage p) (requestVerdict s w)
    simp only [requestStage, requestVerdict, hp, h0]
    exact parseRequestLine_follows h h0
  lineNext {s w s' n} h0 h := by
    change requestVerdict s w = _ at h
    simp only [requestVerdict, h0, requestLineVerdict, onLine] at h
    split at h
    · split_ifs at h
    · split at h <;> cases h
      rfl
  headers {s w} h1 := by
    show requestVerdict s w = _
    simp only [requestVerdict, h1]
  headed {s w} h2 := by
    show requestVerdict s w = _
    unfold requestVerdict
    split <;> first | omega | rfl
  headersStage h1 := by simp only [requestStage, h1]
  bodyStage h2 := by simp only [requestStage, h2]

theorem response_implements : Implements responseStage HTTPContext.response where
  line {p s w} h h0 := by
    have hp : p.ctx.stage = 0 := by rw [← h0, ← h.bare]; rfl
    show Follows p w (responseStage p) (responseVerdict s w)
    simp only [responseStage, responseVerdict, hp, h0]
    exact parseResponseLine_follows h h0
  lineNext {s w s' n} h0 h := by
    change responseVerdict s w = _ at h
    simp only [responseVerdict, h0, responseLineVerdict, onLine] at h
    split at h
    · split_ifs at h
    · cases h
      rfl
  headers {s w} h1 := by
    show responseVerdict s w = _
    simp only [responseVerdict, h1]
  headed {s w} h2 := by
    show responseVerdict s w = _
    unfold responseVerdict
    split <;> first | omega | rfl
  headersStage h1 := by simp only [responseStage, h1]
  bodyStage h2 := by simp only [responseStage, h2]

section
variable {stage : HTTPParser → Except Fault (Flow HTTPParser)}
  {M : Machine UInt8 HTTPContext HeadEnd} {r : Option HeadEnd}

/-- What the header loop comes to, by how the machine ends on the same bytes. -/
inductive HeaderOutcome (p : HTTPParser) (w : Bytes) (t : HTTPContext) (x : Bytes)
    (out : Except Fault (ParseProtocolStatus × HTTPParser)) : Option HeadEnd → Prop
  | waits {q : HTTPParser} : out = .ok (.noEnoughData, q) → Matches q t x →
      q.buf = p.buf.retrieve (w.length - x.length) → HeaderOutcome p w t x out none
  | failed {q : HTTPParser} : out = .ok (.error, q) → Kept t q.ctx →
      q.buf = p.buf.retrieve (w.length - x.length) → HeaderOutcome p w t x out (some .failed)
  | thrown : out = .error .thrown → HeaderOutcome p w t x out (some .thrown)
  | headed {q : HTTPParser} : out = .ok (.partSuccess, q) →
      Matches { q with ctx := { q.ctx with stage := q.ctx.stage + 1 } } t x →
      t.stage = 2 → q.buf = p.buf.retrieve (w.length - x.length) →
      HeaderOutcome p w t x out (some .headed)

theorem headerLines_ret {o : ParseProtocolStatus} (h : p.headerLine = .ok (.ret o q)) :
    headerLines (k + 1) p = .ok (o, q) := by
  rw [headerLines, h]
  rfl

theorem headerLines_again (h : p.headerLine = .ok (.again q)) :
    headerLines (k + 1) p = headerLines k q := by
  rw [headerLines, h]
  rfl

theorem headerLines_fault {f : Fault} (h : p.headerLine = .error f) :
    headerLines (k + 1) p = .error f := by
  rw [headerLines, h]
  rfl

/-- The header loop runs as far as the machine does. -/
theorem headerLines_run (imp : Implements stage M) (h : Matches p s w) (h1 : s.stage = 1)
    (drains : Drains M s w r t x) (hk : w.length < k) :
    HeaderOutcome p w t x (headerLines k p) r := by
  induction drains generalizing p k with
  | @more s w hv =>
      obtain ⟨k, rfl⟩ : ∃ j, k = j + 1 := ⟨k - 1, by omega⟩
      have pass := headerLine_follows h h1
      rw [imp.headers h1] at hv
      rw [hv] at pass
      cases pass with
      | more hp => exact .waits (headerLines_ret hp) h (by rw [Nat.sub_self]; rfl)
  | @stop s w o hv =>
      obtain ⟨k, rfl⟩ : ∃ j, k = j + 1 := ⟨k - 1, by omega⟩
      have pass := headerLine_follows h h1
      rw [imp.headers h1] at hv
      rw [hv] at pass
      cases pass with
      | stop hp =>
          refine .failed (headerLines_ret hp) ?_ (by rw [Nat.sub_self]; rfl)
          rw [← h.bare]
          exact ⟨rfl, rfl, rfl, rfl⟩
      | thrown hp => exact .thrown (headerLines_fault hp)
  | @advance s w s' n r t x hv rest ih =>
      obtain ⟨k, rfl⟩ : ∃ j, k = j + 1 := ⟨k - 1, by omega⟩
      have pass := headerLine_follows h h1
      obtain ⟨hpos, hn⟩ := M.progress hv
      have hx := rest.suffix.length_le
      rw [List.length_drop] at hx
      rw [imp.headers h1] at hv
      rw [hv] at pass
      have joined : ∀ {m : Nat} {b c : Buffer}, b = p.buf.retrieve n → m = w.length - n →
          c = b.retrieve (m - x.length) → c = p.buf.retrieve (w.length - x.length) := by
        rintro m b c rfl rfl rfl
        simp only [Buffer.retrieve, Nat.add_assoc]
        congr 2
        omega
      cases pass with
      | last hp moved hbuf hs2 =>
          cases rest with
          | more hv' => rw [imp.headed (by omega)] at hv'; cases hv'
          | advance hv' _ => rw [imp.headed (by omega)] at hv'; cases hv'
          | stop hv' =>
              rw [imp.headed (by omega)] at hv'
              cases hv'
              refine .headed (headerLines_ret hp) moved hs2 ?_
              rw [hbuf, List.length_drop]
              congr 1
              omega
      | @line q _ _ hp moved hbuf hs1 =>
          have later := ih moved hs1 (k := k) (by rw [List.length_drop]; omega)
          rw [headerLines_again hp]
          generalize headerLines k q = out at later
          cases later with
          | waits hq hm hb => exact .waits hq hm (joined hbuf List.length_drop hb)
          | failed hq hst hb => exact .failed hq hst (joined hbuf List.length_drop hb)
          | thrown hq => exact .thrown hq
          | headed hq hm h2 hb => exact .headed hq hm h2 (joined hbuf List.length_drop hb)

/-- What a call comes to, by how the head machine ends on the unread bytes. With the
head complete the call goes on from a parser at the body. -/
inductive CallOutcome (p : HTTPParser) (w : Bytes) (t : HTTPContext) (x : Bytes)
    (stage : HTTPParser → Except Fault (Flow HTTPParser))
    (out : Except Fault (ParseProtocolStatus × HTTPParser)) : Option HeadEnd → Prop
  | waits {q : HTTPParser} : out = .ok (.noEnoughData, q) → Matches q t x →
      q.buf = p.buf.retrieve (w.length - x.length) → CallOutcome p w t x stage out none
  | failed {q : HTTPParser} : out = .ok (.error, q) → Kept t q.ctx →
      q.buf = p.buf.retrieve (w.length - x.length) → CallOutcome p w t x stage out (some .failed)
  | thrown : out = .error .thrown → CallOutcome p w t x stage out (some .thrown)
  | headed {q : HTTPParser} : out = runStages stage (3 - q.ctx.stage) q → Matches q t x →
      2 ≤ t.stage → q.buf = p.buf.retrieve (w.length - x.length) →
      CallOutcome p w t x stage out (some .headed)

theorem Matches.stage_eq (h : Matches p s w) : p.ctx.stage = s.stage := by
  rw [← h.bare]
  rfl

theorem headers_call (imp : Implements stage M) (h : Matches p s w) (h1 : s.stage = 1)
    (drains : Drains M s w r t x) :
    CallOutcome p w t x stage (runStages stage (3 - p.ctx.stage) p) r := by
  have hp1 := h.stage_eq.trans h1
  have fuel : w.length < p.buf.data.length + 1 := by
    have hlen := h.wf.unread_length
    have hb := h.wf.bound
    rw [h.unread] at hlen
    omega
  have run := headerLines_run imp h h1 drains fuel
  have pass : stage p = advance <$> p.parseHeaders := imp.headersStage hp1
  rw [hp1]
  cases run with
  | waits hq hm hb => exact .waits (runStages_ret (by rw [pass, parseHeaders, hq]; rfl)) hm hb
  | failed hq hkept hb =>
      exact .failed (runStages_ret (by rw [pass, parseHeaders, hq]; rfl)) hkept hb
  | thrown hq => exact .thrown (runStages_fault (by rw [pass, parseHeaders, hq]; rfl))
  | headed hq hm h2 hb =>
      refine .headed ?_ hm h2.ge hb
      rw [hm.stage_eq, h2]
      exact runStages_again (by rw [pass, parseHeaders, hq]; rfl)

/-- A call runs the head machine, from whatever stage the context is in. -/
theorem call_outcome (imp : Implements stage M) (h : Matches p s w)
    (drains : Drains M s w r t x) :
    CallOutcome p w t x stage (runStages stage (3 - p.ctx.stage) p) r := by
  rcases (by omega : s.stage = 0 ∨ s.stage = 1 ∨ 2 ≤ s.stage) with h0 | h1 | h2
  · have pass := imp.line h h0
    have hp0 := h.stage_eq.trans h0
    rw [hp0]
    cases drains with
    | more hv =>
        rw [hv] at pass
        cases pass with
        | more hq => exact .waits (runStages_ret hq) h (by rw [Nat.sub_self]; rfl)
    | stop hv =>
        rw [hv] at pass
        cases pass with
        | stop hq hb hkept =>
            refine .failed (runStages_ret hq) ?_ (by rw [Nat.sub_self]; exact hb)
            rw [← h.bare]
            exact ⟨hkept.stage, hkept.headers, hkept.bodySize, hkept.connType⟩
    | @advance _ _ s' n _ _ _ hv rest =>
        have hs1 := imp.lineNext h0 hv
        have hn := (M.progress hv).2
        have hx := rest.suffix.length_le
        rw [List.length_drop] at hx
        rw [hv] at pass
        cases pass with
        | @advance q _ _ hq moved hb =>
            have later := headers_call imp moved hs1 rest
            rw [runStages_again hq, show (2 : Nat) = 3 - q.ctx.stage by rw [moved.stage_eq, hs1]]
            have joined : ∀ {c : Buffer}, c = q.buf.retrieve ((w.drop n).length - x.length) →
                c = p.buf.retrieve (w.length - x.length) := by
              rintro c rfl
              rw [hb, List.length_drop]
              simp only [Buffer.retrieve, Nat.add_assoc]
              congr 2
              omega
            generalize runStages stage (3 - q.ctx.stage) q = out at later
            cases later with
            | waits ho hm hb' => exact .waits ho hm (joined hb')
            | failed ho hkept hb' => exact .failed ho hkept (joined hb')
            | thrown ho => exact .thrown ho
            | headed ho hm h2 hb' => exact .headed ho hm h2 (joined hb')
  · exact headers_call imp h h1 drains
  · have stays : Drains M s w (some .headed) s w := .stop (imp.headed h2)
    obtain ⟨rfl, rfl, rfl⟩ := drains.unique stays
    exact .headed rfl h h2 (by rw [Nat.sub_self]; rfl)

end

end HTTPParser
end SmallRpc
