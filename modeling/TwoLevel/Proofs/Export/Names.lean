import Mathlib.Data.List.Nodup
import TwoLevel.Export.Expression
import TwoLevel.Proofs.Text.Layout

/-! # Identifiers

The names of the inputs are written into documents as they are, so that a reader finds them again
only when they are identifiers (`isIdentifier`) and no two of them are the same (`InputNames`).  The
default names are, for every number of inputs (`inputNames_defaultNames`). -/

namespace TwoLevel

/-! ### Identifiers -/

/-- The characters that an identifier begins with. -/
def isNameStart (c : Char) : Bool := c.isAlpha || c == '_'

/-- The characters of which an identifier consists. -/
def isNameChar (c : Char) : Bool := c.isAlphanum || c == '_' || c == '$'

/-- Whether a text is an identifier. -/
def isIdentifier (text : String) : Bool :=
  match text.toList with
  | [] => false
  | c :: cs => isNameStart c && cs.all isNameChar

theorem isNameChar_of_isNameStart {c : Char} (h : isNameStart c = true) : isNameChar c = true := by
  unfold isNameStart at h
  unfold isNameChar Char.isAlphanum
  rw [Bool.or_eq_true] at h
  rcases h with h | h <;> simp [h]

theorem isNameChar_of_isDigit {c : Char} (h : c.isDigit = true) : isNameChar c = true := by
  unfold isNameChar Char.isAlphanum
  simp [h]

theorem isIdentifier_iff {text : String} : isIdentifier text = true ↔
    ∃ c cs, text.toList = c :: cs ∧ isNameStart c = true ∧ ∀ d ∈ cs, isNameChar d = true := by
  unfold isIdentifier
  cases h : text.toList with
  | nil => simp
  | cons c cs => simp

theorem isNameChar_of_isIdentifier {text : String} (h : isIdentifier text = true) :
    ∀ c ∈ text.toList, isNameChar c = true := by
  obtain ⟨c, cs, htext, hc, hcs⟩ := isIdentifier_iff.mp h
  rw [htext, List.forall_mem_cons]
  exact ⟨isNameChar_of_isNameStart hc, hcs⟩

/-! ### Names of all inputs -/

/-- Different identifiers, one for each input. -/
structure InputNames (width : ℤ) (names : List String) : Prop where
  length : (names.length : ℤ) = width
  nodup : names.Nodup
  identifier : ∀ name ∈ names, isIdentifier name = true

theorem nodup_letters : ((List.range 26).map letter).Nodup := by decide

theorem isIdentifier_letters : ∀ name ∈ (List.range 26).map letter, isIdentifier name = true := by
  decide

theorem toList_numbered (i : ℕ) : ("x" ++ toString i).toList = 'x' :: (toString i).toList := by
  rw [String.toList_append]
  rfl

theorem numbered_injective : Function.Injective fun i : ℕ => "x" ++ toString i := by
  intro i j h
  have hlist := congrArg String.toList h
  rw [toList_numbered, toList_numbered, List.cons.injEq] at hlist
  rw [← ofDigitChars_toString i, hlist.2, ofDigitChars_toString]

theorem isIdentifier_numbered (i : ℕ) : isIdentifier ("x" ++ toString i) = true :=
  isIdentifier_iff.mpr ⟨'x', (toString i).toList, toList_numbered i, by decide,
    fun _ hd => isNameChar_of_isDigit (isDigit_of_mem_toString hd)⟩

theorem mem_defaultNames {w : ℕ} {name : String} (h : name ∈ defaultNames w) :
    name ∈ (List.range 26).map letter ∨ ∃ i : ℕ, name = "x" ++ toString i := by
  unfold defaultNames at h
  split at h
  · next hw =>
    rw [Int.toNat_natCast] at h
    have hsub : ((List.range w).map letter).Sublist ((List.range 26).map letter) :=
      (List.range_sublist.mpr (by omega)).map letter
    exact .inl (hsub.subset h)
  · obtain ⟨i, -, rfl⟩ := List.mem_map.mp h
    exact .inr ⟨i, rfl⟩

theorem nodup_defaultNames (w : ℕ) : (defaultNames w).Nodup := by
  unfold defaultNames
  split
  · next hw =>
    rw [Int.toNat_natCast]
    exact nodup_letters.sublist ((List.range_sublist.mpr (by omega)).map letter)
  · exact (List.nodup_reverse.mpr List.nodup_range).map numbered_injective

/-- **The default names** are different identifiers, as letters and as numbers. -/
theorem inputNames_defaultNames (w : ℕ) : InputNames w (defaultNames w) where
  length := by
    unfold defaultNames
    split <;> simp
  nodup := nodup_defaultNames w
  identifier name h := by
    rcases mem_defaultNames h with h | ⟨i, rfl⟩
    · exact isIdentifier_letters name h
    · exact isIdentifier_numbered i

end TwoLevel
