import Mathlib.Data.List.TakeWhile
import Mathlib.Data.Nat.Digits.Defs
import Mathlib.Order.Bounds.Basic
import TwoLevel.Text.Layout
import TwoLevel.Text.Numeral

/-! # Laid-out text, taken apart

What is put together can be told apart again: numerals consist of digits, texts put below each other
are the lines of what comes out (`splitOn_stacked`, `lines_stacked`), and blanks around a text are
cut off again, whoever put them there (`trimmed_append_left`, `trimmed_append_right`).  A text of
characters that all have a meaning is read to its end, and in any other one the first character
without a meaning is found (`findIdx?_isNone_eq_some_iff`). -/

namespace TwoLevel

open Text

/-! ### Numerals -/

theorem toList_toString (n : ℕ) : (toString n).toList = Nat.toDigits 10 n := by
  rw [Nat.toString_eq_repr, Nat.repr_eq_ofList_toDigits, String.toList_ofList]

theorem isDigit_of_mem_toString {n : ℕ} {c : Char} (h : c ∈ (toString n).toList) :
    c.isDigit = true := by
  rw [toList_toString] at h
  exact Nat.isDigit_of_mem_toDigits (by decide) (by decide) h

theorem ofDigitChars_toString (n : ℕ) : Nat.ofDigitChars 10 (toString n).toList 0 = n := by
  rw [toList_toString]
  exact Nat.ofDigitChars_ten_toDigits

theorem isDigit_or_eq_of_mem_toString {v : ℤ} {c : Char} (h : c ∈ (toString v).toList) :
    c.isDigit = true ∨ c = '-' := by
  cases v with
  | ofNat n => exact .inl (isDigit_of_mem_toString h)
  | negSucc n =>
      change c ∈ ("-" ++ toString (n + 1)).toList at h
      rw [String.toList_append, List.mem_append] at h
      rcases h with h | h
      · exact .inr (List.mem_singleton.mp h)
      · exact .inl (isDigit_of_mem_toString h)

theorem mem_leftpad {α : Type} {n : ℕ} {fill x : α} {xs : List α} (h : x ∈ xs.leftpad n fill) :
    x = fill ∨ x ∈ xs := by
  rcases List.mem_append.mp h with h | h
  · exact .inl (List.eq_of_mem_replicate h)
  · exact .inr h

theorem isDigit_or_eq_of_mem_binary {width : ℕ} {v : ℤ} {c : Char}
    (h : c ∈ (binary width v).toList) : c.isDigit = true ∨ c = '-' := by
  have hdigits : ∀ n, c ∈ (binaryDigits v.natAbs).leftpad n '0' → c.isDigit = true := by
    intro n hc
    rcases mem_leftpad hc with rfl | hc
    · decide
    · exact Nat.isDigit_of_mem_toDigits (by decide) (by decide) hc
  unfold binary at h
  split at h
  · rw [String.toList_ofList, List.mem_cons] at h
    exact h.symm.imp_left (hdigits _)
  · rw [String.toList_ofList] at h
    exact .inl (hdigits _ h)

/-! ### Separators -/

theorem intercalate_cons {α : Type} (sep x : List α) (xs : List (List α)) :
    sep.intercalate (x :: xs) = x ++ xs.flatMap (sep ++ ·) := by
  induction xs generalizing x with
  | nil => simp
  | cons y xs ih => simp only [List.intercalate_cons_cons, ih, List.flatMap_cons, List.append_assoc]

theorem toList_intercalate_map {α : Type} (sep : String) (text : α → String) (a : α) (as : List α) :
    (sep.intercalate ((a :: as).map text)).toList =
      (text a).toList ++ as.flatMap fun b => sep.toList ++ (text b).toList := by
  rw [String.toList_intercalate, List.map_map, List.map_cons, intercalate_cons, List.flatMap_map]
  rfl

theorem length_splitOn (c : Char) (cs : List Char) : (cs.splitOn c).length = cs.count c + 1 := by
  unfold List.splitOn
  induction cs with
  | nil => rfl
  | cons d cs ih =>
      rw [List.splitOnP_cons_eq_if_modifyHead, List.count_cons]
      split
      · rw [List.length_cons, ih]
      · rw [List.length_modifyHead, ih, Nat.add_zero]

/-! ### Lines -/

/-- A text without a line end. -/
def OneLine (text : String) : Prop := '\n' ∉ text.toList

instance (text : String) : Decidable (OneLine text) := inferInstanceAs (Decidable (¬ _))

theorem oneLine_append {a b : String} : OneLine (a ++ b) ↔ OneLine a ∧ OneLine b := by
  unfold OneLine
  rw [String.toList_append, List.mem_append, not_or]

theorem oneLine_intercalate {sep : String} {texts : List String} (hsep : OneLine sep)
    (h : ∀ text ∈ texts, OneLine text) : OneLine (sep.intercalate texts) := by
  cases texts with
  | nil =>
      unfold OneLine
      simp
  | cons text texts =>
      rw [List.forall_mem_cons] at h
      unfold OneLine
      rw [String.toList_intercalate, List.map_cons, intercalate_cons, List.mem_append,
        List.flatMap_map, List.mem_flatMap]
      rintro (htext | ⟨other, hother, hmem⟩)
      · exact h.1 htext
      · rcases List.mem_append.mp hmem with hmem | hmem
        · exact hsep hmem
        · exact h.2 other hother hmem

theorem oneLine_toString (n : ℕ) : OneLine (toString n) :=
  fun hmem => absurd (isDigit_of_mem_toString hmem) (by decide)

theorem oneLine_toString_int (n : ℤ) : OneLine (toString n) :=
  fun hmem => absurd (isDigit_or_eq_of_mem_toString hmem) (by decide)

theorem splitOn_stacked {lines : List String} (h : ∀ line ∈ lines, OneLine line)
    (hne : lines ≠ []) : (stacked lines).toList.splitOn '\n' = lines.map String.toList := by
  unfold stacked
  rw [String.toList_intercalate]
  exact List.splitOn_intercalate '\n' (List.forall_mem_map.mpr h) (by simpa using hne)

/-- The lines of a text in which only line feeds end lines: there is no line behind the last line
end, and none in an empty text. -/
def Text.lines (text : String) : List String :=
  let parts := (text.toList.splitOn '\n').map String.ofList
  if parts.getLast? = some "" then parts.dropLast else parts

/-- What was put below each other is taken apart again. -/
theorem lines_stacked {lines : List String} (h : ∀ line ∈ lines, OneLine line)
    (hlast : lines.getLast? ≠ some "") : Text.lines (stacked lines) = lines := by
  by_cases hne : lines = []
  · rw [hne]
    rfl
  · have hparts : (lines.map String.toList).map String.ofList = lines := by
      rw [List.map_map]
      exact List.map_id'' (fun line => String.ofList_toList) lines
    unfold Text.lines
    rw [splitOn_stacked h hne, hparts]
    exact if_neg hlast

theorem join_ended (lines : List String) :
    String.join (lines.map (· ++ "\n")) = stacked (lines ++ [""]) := by
  apply String.toList_injective
  unfold stacked
  rw [String.toList_join, String.toList_intercalate, List.flatMap_map]
  induction lines with
  | nil => rfl
  | cons line lines ih =>
      rw [List.flatMap_cons, ih, String.toList_append, List.cons_append, List.map_cons]
      cases lines with
      | nil => simp
      | cons other lines => simp

theorem splitOn_join {lines : List String} (h : ∀ line ∈ lines, OneLine line) :
    (String.join (lines.map (· ++ "\n"))).toList.splitOn '\n' =
      (lines ++ [""]).map String.toList := by
  have hended : ∀ line ∈ lines ++ [""], OneLine line := by
    rw [List.forall_mem_append, List.forall_mem_singleton]
    exact ⟨h, by decide⟩
  rw [join_ended, splitOn_stacked hended (by simp)]

theorem lines_join {lines : List String} (h : ∀ line ∈ lines, OneLine line) :
    Text.lines (String.join (lines.map (· ++ "\n"))) = lines := by
  have hparts : ((lines ++ [""]).map String.toList).map String.ofList = lines ++ [""] := by
    rw [List.map_map]
    exact List.map_id'' (fun line => String.ofList_toList) _
  unfold Text.lines
  rw [splitOn_join h, hparts]
  exact (if_pos List.getLast?_concat).trans List.dropLast_concat

/-! ### Blanks -/

section trimmed

variable {α : Type} {drop : α → Bool} {xs ys : List α}

theorem trimmed_append_left (h : ∀ x ∈ xs, drop x = true) :
    trimmed drop (xs ++ ys) = trimmed drop ys := by
  unfold trimmed
  rw [List.dropWhile_append_of_pos h]

theorem trimmed_append_right (h : ∀ y ∈ ys, drop y = true) :
    trimmed drop (xs ++ ys) = trimmed drop xs := by
  unfold trimmed
  rw [List.dropWhile_append]
  split
  · next hxs =>
    rw [List.isEmpty_iff] at hxs
    rw [hxs, List.dropWhile_eq_nil_iff.mpr h]
  · rw [List.reverse_append, List.dropWhile_append_of_pos fun y hy => h y (List.mem_reverse.mp hy)]

theorem trimmed_eq_self (h : ∀ x ∈ xs, drop x = false) : trimmed drop xs = xs := by
  have hkeep : ∀ zs : List α, (∀ z ∈ zs, drop z = false) → zs.dropWhile drop = zs := by
    intro zs hzs
    cases zs with
    | nil => rfl
    | cons z zs => rw [List.dropWhile_cons_of_neg (by simp [hzs z List.mem_cons_self])]
  unfold trimmed
  rw [hkeep xs h, hkeep _ fun x hx => h x (List.mem_reverse.mp hx), List.reverse_reverse]

end trimmed

theorem stripped_padLeft {text : String} (h : ∀ c ∈ text.toList, isBlank c = false) (width : ℕ) :
    stripped (padLeft width ' ' text) = text := by
  have hfill : ∀ c ∈ List.replicate (width - text.toList.length) ' ', isBlank c = true := by
    intro c hc
    rw [List.eq_of_mem_replicate hc]
    decide
  unfold stripped padLeft List.leftpad
  rw [String.toList_ofList, trimmed_append_left hfill, trimmed_eq_self h, String.ofList_toList]

/-! ### Characters with a meaning -/

section meaning

variable {α : Type} {meaning : Char → Option α} {symbols : List Char}
  (h : ∀ c, (meaning c).isNone = true ↔ c ∉ symbols) {cs : List Char}
include h

theorem findIdx?_isNone_eq_none_iff :
    cs.findIdx? (fun c => (meaning c).isNone) = none ↔ ∀ c ∈ cs, c ∈ symbols := by
  rw [List.findIdx?_eq_none_iff]
  simp only [Bool.eq_false_iff, ne_eq, h, not_not]

theorem findIdx?_isNone_eq_some_iff {i : ℕ} :
    cs.findIdx? (fun c => (meaning c).isNone) = some i ↔
      IsLeast {j | ∃ c, cs[j]? = some c ∧ c ∉ symbols} i := by
  rw [List.findIdx?_eq_some_iff_getElem]
  simp only [← h]
  constructor
  · rintro ⟨hi, hnone, hbefore⟩
    refine ⟨⟨cs[i], List.getElem?_eq_getElem hi, hnone⟩, ?_⟩
    rintro j ⟨c, hc, hcnone⟩
    obtain ⟨hj, rfl⟩ := List.getElem?_eq_some_iff.mp hc
    by_contra hlt
    exact hbefore j (not_le.mp hlt) hcnone
  · rintro ⟨⟨c, hc, hnone⟩, hleast⟩
    obtain ⟨hi, rfl⟩ := List.getElem?_eq_some_iff.mp hc
    refine ⟨hi, hnone, fun j hj hjnone => ?_⟩
    have hle : i ≤ j := hleast ⟨_, List.getElem?_eq_getElem (hj.trans hi), hjnone⟩
    omega

end meaning

end TwoLevel
