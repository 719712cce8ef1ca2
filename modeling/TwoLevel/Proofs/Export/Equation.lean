import Mathlib.Data.List.SplitBy
import TwoLevel.Proofs.Export.Emitted
import TwoLevel.Proofs.Export.Names
import TwoLevel.Proofs.Pattern.Positions

/-! # Expressions read back

In Boolean algebra the literals of a product stand side by side with nothing in between, and a
complement is marked behind its name.  The default names are a letter with or without a number
(`isLetterNumber`), where one name can begin another one.  Still a literal begins exactly where a
letter stands, so that the words of a product can be told apart (`Equation.splitBy_flatten_words`).

Blanks and plus signs stand between products only, and the constants begin with digits.  So an
expression is read as the patterns of its terms (`Equation.read_sum`), and no two lists of patterns
have the same expression (`Solution.expression_unambiguous`). -/

namespace TwoLevel

/-! ### Letters with numbers -/

/-- Whether a text is a letter, or a letter with a number behind it. -/
def isLetterNumber (text : String) : Bool :=
  match text.toList with
  | [] => false
  | c :: cs => c.isAlpha && cs.all Char.isDigit

theorem isLetterNumber_iff {text : String} : isLetterNumber text = true ↔
    ∃ c cs, text.toList = c :: cs ∧ c.isAlpha = true ∧ ∀ d ∈ cs, d.isDigit = true := by
  unfold isLetterNumber
  cases h : text.toList with
  | nil => simp
  | cons c cs => simp

theorem isLetterNumber_letters :
    ∀ name ∈ (List.range 26).map letter, isLetterNumber name = true := by decide

theorem isLetterNumber_numbered (i : ℕ) : isLetterNumber ("x" ++ toString i) = true :=
  isLetterNumber_iff.mpr ⟨'x', (toString i).toList, toList_numbered i, by decide,
    fun _ hd => isDigit_of_mem_toString hd⟩

theorem isLetterNumber_defaultNames (w : ℕ) :
    ∀ name ∈ defaultNames w, isLetterNumber name = true := by
  intro name h
  rcases mem_defaultNames h with h | ⟨i, rfl⟩
  · exact isLetterNumber_letters name h
  · exact isLetterNumber_numbered i

theorem isAlpha_eq_false_of_isDigit {c : Char} (h : c.isDigit = true) : c.isAlpha = false := by
  unfold Char.isDigit at h
  unfold Char.isAlpha Char.isUpper Char.isLower
  simp only [Bool.and_eq_true, decide_eq_true_eq, Bool.or_eq_false_iff, Bool.and_eq_false_iff,
    decide_eq_false_iff_not, ge_iff_le, UInt32.le_iff_toNat_le] at h ⊢
  have hnine : ('9'.val).toNat = 57 := rfl
  have hA : ('A'.val).toNat = 65 := rfl
  have ha : ('a'.val).toNat = 97 := rfl
  omega

/-! ### A reader -/

namespace Equation

/-- The literal that a word spells. -/
def literal (word : List Char) : NamedLiteral :=
  if word.getLast? = some '\x27' then ⟨.ofList word.dropLast, false⟩ else ⟨.ofList word, true⟩

/-- The literals of a product.  One begins at every letter. -/
def product (text : List Char) : List NamedLiteral :=
  if text = ['1'] then [] else (text.splitBy fun _ c => !c.isAlpha).map literal

/-- The products of a sum, between which blanks do not count. -/
def sum (text : List Char) : List (List NamedLiteral) :=
  if text = ['0'] then [] else ((text.filter (· ≠ ' ')).splitOn '+').map product

/-- What some literals say about the input of a name. -/
def position (ls : List NamedLiteral) (name : String) : Trit :=
  match ls.find? fun l => l.name = name with
  | some l => .ofBool l.positive
  | none => .star

/-- The patterns of an expression over named inputs. -/
def read (names : List String) (text : String) : List Pattern :=
  (sum text.toList).map fun ls => (names.map (position ls)).reverse

/-! ### Words -/

/-- Words that begin with their only letter are the words of the text that they make up. -/
theorem splitBy_flatten_words {words : List (List Char)}
    (h : ∀ word ∈ words, ∃ c cs, word = c :: cs ∧ c.isAlpha = true ∧ ∀ d ∈ cs, d.isAlpha = false) :
    words.flatten.splitBy (fun _ c => !c.isAlpha) = words := by
  apply List.splitBy_flatten
  · intro hnil
    obtain ⟨c, cs, hword, -⟩ := h [] hnil
    exact absurd hword (List.cons_ne_nil c cs).symm
  · intro word hword
    obtain ⟨c, cs, rfl, -, hrest⟩ := h word hword
    refine List.Pairwise.isChain (List.pairwise_cons.mpr ⟨fun d hd => ?_, ?_⟩)
    · rw [hrest d hd]
      rfl
    · refine List.pairwise_of_forall_mem_list fun a _ d hd => ?_
      rw [hrest d hd]
      rfl
  · refine List.Pairwise.isChain (List.pairwise_of_forall_mem_list fun a ha b hb => ?_)
    obtain ⟨c, cs, rfl, -⟩ := h a ha
    obtain ⟨d, ds, rfl, hd, -⟩ := h b hb
    refine ⟨List.cons_ne_nil c cs, List.cons_ne_nil d ds, ?_⟩
    rw [List.head_cons, hd]
    rfl

section literal

variable {l : NamedLiteral}

theorem toList_literal (l : NamedLiteral) : (Dialect.algebra.literal l).toList =
    l.name.toList ++ if l.positive then [] else ['\x27'] := by
  unfold Dialect.literal
  split <;> simp [Dialect.algebra]

theorem exists_word (h : isLetterNumber l.name = true) : ∃ c cs,
    (Dialect.algebra.literal l).toList = c :: cs ∧ c.isAlpha = true ∧
      ∀ d ∈ cs, d.isDigit = true ∨ d = '\x27' := by
  obtain ⟨c, cs, hname, hc, hcs⟩ := isLetterNumber_iff.mp h
  refine ⟨c, cs ++ if l.positive then [] else ['\x27'], ?_, hc, fun d hd => ?_⟩
  · rw [toList_literal, hname, List.cons_append]
  · rcases List.mem_append.mp hd with hd | hd
    · exact .inl (hcs d hd)
    · split at hd
      · exact absurd hd List.not_mem_nil
      · exact .inr (List.mem_singleton.mp hd)

theorem literal_toList (h : isLetterNumber l.name = true) :
    literal (Dialect.algebra.literal l).toList = l := by
  obtain ⟨name, positive⟩ := l
  rw [toList_literal]
  unfold literal
  cases positive with
  | true =>
      have hlast : ¬ name.toList.getLast? = some '\x27' := by
        intro hlast
        obtain ⟨c, cs, hword, hc, hcs⟩ := isLetterNumber_iff.mp h
        have hmem : '\x27' ∈ c :: cs := hword ▸ List.mem_of_getLast? hlast
        rcases List.mem_cons.mp hmem with rfl | hmem
        · exact absurd hc (by decide)
        · exact absurd (hcs _ hmem) (by decide)
      rw [if_pos rfl, List.append_nil, if_neg hlast, String.ofList_toList]
  | false =>
      rw [if_neg Bool.false_ne_true, if_pos List.getLast?_concat, List.dropLast_concat,
        String.ofList_toList]

end literal

/-! ### Products -/

section product

variable {ls : List NamedLiteral}

theorem toList_product (hne : ls ≠ []) : (Dialect.algebra.product ls).toList =
    (ls.map fun l => (Dialect.algebra.literal l).toList).flatten := by
  match ls, hne with
  | [l], _ => simp [Dialect.product]
  | l :: m :: ls, _ =>
      have hgroup : Dialect.algebra.product (l :: m :: ls) =
          "" ++ "".intercalate ((l :: m :: ls).map Dialect.algebra.literal) ++ "" := rfl
      rw [hgroup, String.empty_append, String.append_empty, toList_intercalate_map,
        List.map_cons, List.flatten_cons, List.flatMap_def]
      rfl

variable (h : ∀ l ∈ ls, isLetterNumber l.name = true)
include h

theorem exists_product_eq_cons : ∃ c cs, (Dialect.algebra.product ls).toList = c :: cs ∧
    c ≠ '0' ∧ (ls ≠ [] → c ≠ '1') := by
  cases ls with
  | nil => exact ⟨'1', [], rfl, by decide, fun hne => absurd rfl hne⟩
  | cons l ls =>
      obtain ⟨c, cs, hword, hc, -⟩ := exists_word (h l List.mem_cons_self)
      refine ⟨c, cs ++ (ls.map fun l => (Dialect.algebra.literal l).toList).flatten, ?_, ?_, ?_⟩
      · rw [toList_product (List.cons_ne_nil l ls), List.map_cons, List.flatten_cons, hword,
          List.cons_append]
      · rintro rfl
        exact absurd hc (by decide)
      · rintro - rfl
        exact absurd hc (by decide)

theorem product_toList : product (Dialect.algebra.product ls).toList = ls := by
  by_cases hne : ls = []
  · rw [hne]
    rfl
  · have hone : ¬ (Dialect.algebra.product ls).toList = ['1'] := by
      obtain ⟨c, cs, htext, -, hc⟩ := exists_product_eq_cons h
      rw [htext, List.cons.injEq, not_and]
      exact fun heq => absurd heq (hc hne)
    have hwords : ∀ word ∈ ls.map fun l => (Dialect.algebra.literal l).toList,
        ∃ c cs, word = c :: cs ∧ c.isAlpha = true ∧ ∀ d ∈ cs, d.isAlpha = false := by
      rw [List.forall_mem_map]
      intro l hl
      obtain ⟨c, cs, hword, hc, hcs⟩ := exists_word (h l hl)
      refine ⟨c, cs, hword, hc, fun d hd => ?_⟩
      rcases hcs d hd with hd | rfl
      · exact isAlpha_eq_false_of_isDigit hd
      · decide
    unfold product
    rw [if_neg hone, toList_product hne, splitBy_flatten_words hwords, List.map_map]
    exact (List.map_congr_left fun l hl => literal_toList (h l hl)).trans (List.map_id ls)

theorem forall_mem_product :
    ∀ c ∈ (Dialect.algebra.product ls).toList, c ≠ ' ' ∧ c ≠ '+' := by
  by_cases hne : ls = []
  · rw [hne]
    intro c hc
    obtain rfl : c = '1' := List.mem_singleton.mp hc
    decide
  · intro c hc
    rw [toList_product hne, List.mem_flatten] at hc
    obtain ⟨word, hword, hmem⟩ := hc
    obtain ⟨l, hl, rfl⟩ := List.mem_map.mp hword
    obtain ⟨d, ds, htext, hd, hds⟩ := exists_word (h l hl)
    have hchar : c.isAlpha = true ∨ c.isDigit = true ∨ c = '\x27' := by
      rw [htext] at hmem
      rcases List.mem_cons.mp hmem with rfl | hmem
      · exact .inl hd
      · exact .inr (hds c hmem)
    constructor
    · rintro rfl
      exact absurd hchar (by decide)
    · rintro rfl
      exact absurd hchar (by decide)

end product

/-! ### Sums -/

section sum

variable {names : List String} (h : ∀ name ∈ names, isLetterNumber name = true)
include h

theorem isLetterNumber_of_mem_namedLiterals (t : Term) :
    ∀ l ∈ t.namedLiterals names, isLetterNumber l.name = true :=
  fun l hl => h l.name (Term.name_mem_of_mem_namedLiterals hl)

/-- Without its blanks a sum is its products with plus signs between them. -/
theorem filter_sum {terms : List Term} (hne : terms ≠ []) :
    (Dialect.algebra.sum names terms).toList.filter (· ≠ ' ') =
      ['+'].intercalate (terms.map fun t => (Dialect.algebra.term names t).toList) := by
  obtain ⟨t, ts, rfl⟩ := List.exists_cons_of_ne_nil hne
  have hkeep : ∀ u : Term, (Dialect.algebra.term names u).toList.filter (· ≠ ' ') =
      (Dialect.algebra.term names u).toList := by
    intro u
    rw [List.filter_eq_self]
    intro c hc
    exact decide_eq_true
      (forall_mem_product (isLetterNumber_of_mem_namedLiterals h u) c hc).1
  have htext : Dialect.algebra.sum names (t :: ts) =
      " + ".intercalate ((t :: ts).map (Dialect.algebra.term names)) := rfl
  rw [htext, toList_intercalate_map, List.filter_append, hkeep, List.filter_flatMap, List.map_cons,
    intercalate_cons, List.flatMap_map]
  congr 1
  refine List.flatMap_congr fun u _ => ?_
  rw [List.filter_append, hkeep]
  rfl

theorem sum_ne_zero {terms : List Term} (hne : terms ≠ []) :
    (Dialect.algebra.sum names terms).toList ≠ ['0'] := by
  obtain ⟨t, ts, rfl⟩ := List.exists_cons_of_ne_nil hne
  obtain ⟨c, cs, hproduct, hc, -⟩ :=
    exists_product_eq_cons (isLetterNumber_of_mem_namedLiterals h t)
  have htext : Dialect.algebra.sum names (t :: ts) =
      " + ".intercalate ((t :: ts).map (Dialect.algebra.term names)) := rfl
  rw [htext, toList_intercalate_map, Dialect.term, hproduct, List.cons_append, Ne,
    List.cons.injEq, not_and]
  exact fun heq => absurd heq hc

theorem sum_toList (terms : List Term) :
    sum (Dialect.algebra.sum names terms).toList = terms.map (Term.namedLiterals names) := by
  unfold sum
  by_cases hne : terms = []
  · have hnever : Dialect.algebra.sum names [] = "0" := rfl
    rw [hne, hnever]
    rfl
  · have hplus : ∀ text ∈ terms.map fun t => (Dialect.algebra.term names t).toList, '+' ∉ text := by
      rw [List.forall_mem_map]
      intro t _ hmem
      exact (forall_mem_product (isLetterNumber_of_mem_namedLiterals h t) _ hmem).2 rfl
    rw [if_neg (sum_ne_zero h hne), filter_sum h hne,
      List.splitOn_intercalate '+' hplus (by simpa using hne), List.map_map]
    exact List.map_congr_left fun t _ =>
      product_toList (isLetterNumber_of_mem_namedLiterals h t)

end sum

/-! ### Positions -/

/-- The literal of a position that is fixed. -/
def fixed? : String × Trit → Option NamedLiteral
  | (name, .one) => some ⟨name, true⟩
  | (name, .zero) => some ⟨name, false⟩
  | (_, .star) => none

theorem namedLiterals_eq_filterMap (names : List String) (t : Term) : t.namedLiterals names =
    (names.zip (t.pattern.window names.length).reverse).filterMap fixed? := by
  unfold Term.namedLiterals
  refine List.filterMap_congr fun ⟨name, trit⟩ _ => ?_
  cases trit <;> rfl

theorem fixed?_eq_some {entry : String × Trit} {l : NamedLiteral} (h : fixed? entry = some l) :
    l.name = entry.1 ∧ .ofBool l.positive = entry.2 := by
  obtain ⟨name, trit⟩ := entry
  cases trit with
  | star => cases h
  | zero =>
      obtain rfl := Option.some.inj h
      exact ⟨rfl, rfl⟩
  | one =>
      obtain rfl := Option.some.inj h
      exact ⟨rfl, rfl⟩

theorem fixed?_eq_none {entry : String × Trit} (h : fixed? entry = none) : entry.2 = .star := by
  obtain ⟨name, trit⟩ := entry
  cases trit with
  | star => rfl
  | zero => cases h
  | one => cases h

theorem position_cons_self (l : NamedLiteral) (ls : List NamedLiteral) :
    position (l :: ls) l.name = .ofBool l.positive := by
  unfold position
  rw [List.find?_cons_of_pos (by simp)]

theorem position_cons_of_ne {l : NamedLiteral} {name : String} (h : l.name ≠ name)
    (ls : List NamedLiteral) : position (l :: ls) name = position ls name := by
  unfold position
  rw [List.find?_cons_of_neg (by simpa using h)]

theorem position_eq_star {ls : List NamedLiteral} {name : String} (h : ∀ l ∈ ls, l.name ≠ name) :
    position ls name = .star := by
  have hnone : ls.find? (fun l => l.name = name) = none := by
    rw [List.find?_eq_none]
    exact fun l hl => by simpa using h l hl
  unfold position
  rw [hnone]

theorem map_position {names : List String} (hnodup : names.Nodup) {trits : List Trit}
    (hlength : trits.length = names.length) :
    names.map (position ((names.zip trits).filterMap fixed?)) = trits := by
  induction names generalizing trits with
  | nil => exact (List.length_eq_zero_iff.mp hlength).symm
  | cons name names ih =>
      obtain ⟨trit, trits, rfl⟩ := List.exists_cons_of_length_eq_add_one hlength
      obtain ⟨hname, hnodup⟩ := List.nodup_cons.mp hnodup
      have ih := ih hnodup (Nat.succ.inj hlength)
      have hrest : ∀ l ∈ (names.zip trits).filterMap fixed?, l.name ∈ names := by
        intro l hl
        obtain ⟨entry, hentry, hl⟩ := List.mem_filterMap.mp hl
        rw [(fixed?_eq_some hl).1]
        exact (List.of_mem_zip hentry).1
      rw [List.zip_cons_cons, List.map_cons]
      cases hfixed : fixed? (name, trit) with
      | none =>
          obtain rfl : trit = .star := fixed?_eq_none hfixed
          rw [List.filterMap_cons_none hfixed, ih, position_eq_star]
          rintro l hl rfl
          exact hname (hrest l hl)
      | some l =>
          obtain ⟨rfl, rfl⟩ := fixed?_eq_some hfixed
          rw [List.filterMap_cons_some hfixed, position_cons_self]
          refine congrArg (_ :: ·) (Eq.trans (List.map_congr_left fun other hother => ?_) ih)
          exact position_cons_of_ne (fun heq => hname (heq ▸ hother)) _

/-- **A sum of products is read** as the windows of its terms. -/
theorem read_sum {names : List String} (h : ∀ name ∈ names, isLetterNumber name = true)
    (hnodup : names.Nodup) (terms : List Term) :
    read names (Dialect.algebra.sum names terms) =
      terms.map fun t => t.pattern.window names.length := by
  unfold read
  rw [sum_toList h, List.map_map]
  refine List.map_congr_left fun t _ => ?_
  have hlength : (t.pattern.window names.length).reverse.length = names.length := by
    rw [List.length_reverse, Pattern.length_window]
  rw [Function.comp_apply, namedLiterals_eq_filterMap, map_position hnodup hlength,
    List.reverse_reverse]

/-- The products of a sum depend on the windows of its terms alone. -/
theorem map_term_congr {names : List String} {terms others : List Term}
    (h : (terms.map fun t => t.pattern.window names.length) =
      others.map fun t => t.pattern.window names.length) :
    terms.map (Dialect.algebra.term names) = others.map (Dialect.algebra.term names) := by
  have hterm : ∀ ts : List Term, ts.map (Dialect.algebra.term names) =
      (ts.map fun t => t.pattern.window names.length).map fun q =>
        Dialect.algebra.product ((names.zip q.reverse).filterMap fixed?) := by
    intro ts
    rw [List.map_map]
    refine List.map_congr_left fun t _ => ?_
    rw [Function.comp_apply, ← namedLiterals_eq_filterMap]
    rfl
  rw [hterm, hterm, h]

/-- Two sums have the same text exactly when their terms have the same windows. -/
theorem sum_inj {names : List String} (h : ∀ name ∈ names, isLetterNumber name = true)
    (hnodup : names.Nodup) {terms others : List Term} :
    Dialect.algebra.sum names terms = Dialect.algebra.sum names others ↔
      (terms.map fun t => t.pattern.window names.length) =
        others.map fun t => t.pattern.window names.length := by
  constructor
  · intro htext
    rw [← read_sum h hnodup, ← read_sum h hnodup, htext]
  · intro hwindows
    have hproducts := map_term_congr hwindows
    match terms, others, congrArg List.length hwindows with
    | [], [], _ => rfl
    | _ :: _, _ :: _, _ => exact congrArg (" + ".intercalate ·) hproducts

end Equation

/-- **Expressions over the default names are unambiguous.**  Up to the end of the alphabet and
beyond it, there are as many default names as inputs and no two of them are the same.  Two solutions
over these inputs, whatever their terms are as long as they fit, have the same expression exactly
when they have equally many terms and each two at the same place have the same pattern over these
inputs. -/
theorem Solution.expression_unambiguous (w : ℕ) :
    (defaultNames w).length = w ∧ (defaultNames w).Nodup ∧
      ∀ s r : Solution, s.width = w → r.width = w →
        (∀ t ∈ s.implicants, t.pattern.length ≤ w) → (∀ t ∈ r.implicants, t.pattern.length ≤ w) →
        (s.expression (defaultNames s.width) = r.expression (defaultNames r.width) ↔
          List.Forall₂ (fun t u => t.pattern.extend w = u.pattern.extend w)
            s.implicants r.implicants) := by
  have hnames := inputNames_defaultNames w
  have hlength : (defaultNames w).length = w := by exact_mod_cast hnames.length
  refine ⟨hlength, hnames.nodup, fun s r hs hr hfits hfits' => ?_⟩
  have hextend : ∀ ts : List Term, (∀ t ∈ ts, t.pattern.length ≤ w) →
      (ts.map fun t => t.pattern.window (defaultNames w).length) =
        ts.map fun t => t.pattern.extend w := by
    intro ts hts
    refine List.map_congr_left fun t ht => ?_
    rw [hlength, Pattern.window_eq_extend (hts t ht)]
  unfold expression
  rw [hs, hr, Equation.sum_inj (isLetterNumber_defaultNames w) hnames.nodup, hextend _ hfits,
    hextend _ hfits', ← List.forall₂_eq_eq_eq, List.forall₂_map_left_iff,
    List.forall₂_map_right_iff]

/-- Where one name begins another one, a product of two literals is told apart from a literal, and a
zero stored at the end of a pattern does not show. -/
theorem Solution.expression_of_overlapping_names :
    let single (w : ℤ) (p : Pattern) : Solution := ⟨[⟨p, ∅⟩], [], "Petrick", w, 0, [], []⟩
    let two := single 30 (.one :: .one :: List.replicate 28 .star)
    let one := single 30 (List.replicate 10 .star ++ .one :: List.replicate 19 .star)
    (two.expression (defaultNames 30) = "x1x0" ∧ one.expression (defaultNames 30) = "x10" ∧
        two.expression (defaultNames two.width) ≠ one.expression (defaultNames one.width)) ∧
      (single 3 [.star, .one, .zero]).expression (defaultNames 3) =
        (single 3 [.star, .one]).expression (defaultNames 3) := by
  intro single two one
  refine ⟨⟨by decide +kernel, by decide +kernel, ?_⟩, ?_⟩
  · obtain ⟨-, -, hexpression⟩ := expression_unambiguous 30
    rw [Ne, hexpression two one rfl rfl (by decide) (by decide), List.forall₂_cons]
    rintro ⟨hpattern, -⟩
    exact absurd hpattern (by decide)
  · obtain ⟨-, -, hexpression⟩ := expression_unambiguous 3
    refine (hexpression (single 3 [.star, .one, .zero]) (single 3 [.star, .one]) rfl rfl
      (by decide) (by decide)).mpr ?_
    exact .cons rfl .nil

end TwoLevel
