import Mathlib

/-! Tables that take an item only under a key they do not have yet, as a map does behind a
`find`. What they hold is what came first under its key, whatever came later. -/
namespace FirstWins

variable {α β : Type*} [BEq α] (key : β → α) {table items : List β} {k : α} {b : β}

def under (k : α) (b : β) : Bool := key b == k

def keep (table : List β) (b : β) : List β :=
  match table.find? (under key (key b)) with
  | some _ => table
  | none => table ++ [b]

def fill (items : List β) : List β := items.foldl (keep key) []

variable {key}

theorem keep_of_some {c : β} (h : table.find? (under key (key b)) = some c) :
    keep key table b = table := by
  rw [keep, h]

theorem keep_of_none (h : table.find? (under key (key b)) = none) :
    keep key table b = table ++ [b] := by
  rw [keep, h]

@[simp] theorem fill_snoc : fill key (items ++ [b]) = keep key (fill key items) b := by
  simp only [fill, List.foldl_append, List.foldl_cons, List.foldl_nil]

variable [LawfulBEq α]

theorem under_iff : under key k b = true ↔ key b = k := beq_iff_eq

/-- The first item under a key is the one that is found. -/
theorem find?_fill (items : List β) (k : α) :
    (fill key items).find? (under key k) = items.find? (under key k) := by
  induction items using List.reverseRecOn with
  | nil => rfl
  | append_singleton items b ih =>
      rw [fill_snoc, List.find?_append]
      cases here : (fill key items).find? (under key (key b)) with
      | none => rw [keep_of_none here, List.find?_append, ih]
      | some c =>
          rw [keep_of_some here, ih]
          by_cases same : key b = k
          · subst same
            rw [← ih, here, Option.some_or]
          · have other : [b].find? (under key k) = none := by
              rw [List.find?_singleton, if_neg (by rwa [under_iff])]
            rw [other, Option.or_none]

/-- No two items have the same key. -/
theorem fill_keys (items : List β) : ((fill key items).map key).Nodup := by
  induction items using List.reverseRecOn with
  | nil => exact List.nodup_nil
  | append_singleton items b ih =>
      rw [fill_snoc]
      cases here : (fill key items).find? (under key (key b)) with
      | some c => rwa [keep_of_some here]
      | none =>
          rw [keep_of_none here, List.map_append, List.map_singleton, ← List.concat_eq_append]
          apply List.Nodup.concat _ ih
          intro taken
          obtain ⟨c, hc, same⟩ := List.mem_map.mp taken
          exact List.find?_eq_none.mp here c hc (under_iff.mpr same)

theorem fill_nodup (items : List β) : (fill key items).Nodup := (fill_keys items).of_map

/-- Where no key occurs twice, every item is found under its own. -/
theorem find?_of_mem (keys : (table.map key).Nodup) (h : b ∈ table) :
    table.find? (under key (key b)) = some b := by
  induction table with
  | nil => cases h
  | cons c table ih =>
      rw [List.map_cons, List.nodup_cons] at keys
      rcases List.mem_cons.mp h with rfl | later
      · rw [List.find?_cons_of_pos (under_iff.mpr rfl)]
      · have differs : key c ≠ key b := by
          intro same
          apply keys.1
          rw [same]
          exact List.mem_map_of_mem later
        rw [List.find?_cons_of_neg (by rwa [under_iff]), ih keys.2 later]

theorem mem_fill_iff : b ∈ fill key items ↔ items.find? (under key (key b)) = some b := by
  rw [← find?_fill]
  exact ⟨find?_of_mem (fill_keys items), List.mem_of_find?_eq_some⟩

/-- The list of pairs that a map is looked up in. -/
theorem lookup_eq_find? {γ : Type*} (pairs : List (α × γ)) (k : α) :
    pairs.lookup k = (pairs.find? (under Prod.fst k)).map Prod.snd := by
  induction pairs with
  | nil => rfl
  | cons p pairs ih =>
      rw [List.lookup_cons, List.find?_cons, under, BEq.comm]
      cases p.1 == k with
      | true => rfl
      | false => exact ih

end FirstWins
