import TwoLevel.Export.Document
import TwoLevel.Proofs.Export.Netlist

/-! # Emitted expressions

The text of a sum of products over named inputs is read as the expression it was made from
(`Dialect.SpelledIn.read_sum`): its tokens are the literals, products and sums in their order, and
the tokens of a sum of products are read as the disjunction of its conjunctions. -/

namespace TwoLevel

/-! ### The expression of a sum of products -/

namespace Expr

/-- A name or its complement. -/
def ofLiteral (l : NamedLiteral) : Expr := if l.positive then .var l.name else .not (.var l.name)

/-- The conjunction of literals, in parentheses when there are two and more. -/
def ofProduct : List NamedLiteral → Expr
  | [] => .const true
  | [l] => ofLiteral l
  | l :: ls => .group ((ls.map ofLiteral).foldl .and (ofLiteral l))

/-- The disjunction of products. -/
def ofSum : List (List NamedLiteral) → Expr
  | [] => .const false
  | ls :: sum => (sum.map ofProduct).foldl .or (ofProduct ls)

end Expr

/-! ### Tokens -/

namespace Token

/-- The tokens of a literal. -/
def ofLiteral (l : NamedLiteral) : List Token :=
  if l.positive then [.name l.name] else [.not, .name l.name]

/-- The tokens of a product. -/
def ofProduct : List NamedLiteral → List Token
  | [] => [.const true]
  | [l] => ofLiteral l
  | l :: ls => .opening :: (ofLiteral l ++ ls.flatMap fun m => .and :: ofLiteral m) ++ [.closing]

/-- The tokens of a sum of products. -/
def ofSum : List (List NamedLiteral) → List Token
  | [] => [.const false]
  | ls :: sum => ofProduct ls ++ sum.flatMap fun ms => .or :: ofProduct ms

end Token

namespace Expr

theorem foldlM_step_append {p q r : Progress} {ts us : List Token}
    (ht : ts.foldlM step p = some q) (hu : us.foldlM step q = some r) :
    (ts ++ us).foldlM step p = some r := by
  rw [List.foldlM_append, ht]
  exact hu

section step

variable (outer : List Level)

theorem foldlM_step_literal (sum product : Option Expr) (l : NamedLiteral) :
    (Token.ofLiteral l).foldlM step ⟨⟨sum, product, 0⟩, outer, false⟩ =
      some ⟨Level.factor ⟨sum, product, 0⟩ (ofLiteral l), outer, true⟩ := by
  unfold Token.ofLiteral ofLiteral
  cases l.positive <;> rfl

theorem foldlM_step_literals (sum : Option Expr) (e : Expr) (ls : List NamedLiteral) :
    (ls.flatMap fun l => .and :: Token.ofLiteral l).foldlM step ⟨⟨sum, some e, 0⟩, outer, true⟩ =
      some ⟨⟨sum, some ((ls.map ofLiteral).foldl .and e), 0⟩, outer, true⟩ := by
  induction ls generalizing e with
  | nil => rfl
  | cons l ls ih =>
      have hliteral : (Token.and :: Token.ofLiteral l).foldlM step
          ⟨⟨sum, some e, 0⟩, outer, true⟩ =
            some ⟨⟨sum, some (.and e (ofLiteral l)), 0⟩, outer, true⟩ :=
        foldlM_step_literal outer sum (some e) l
      rw [List.flatMap_cons, List.map_cons, List.foldl_cons]
      exact foldlM_step_append hliteral (ih _)

/-- One product is read as one factor. -/
theorem foldlM_step_product (sum : Option Expr) (ls : List NamedLiteral) :
    (Token.ofProduct ls).foldlM step ⟨⟨sum, none, 0⟩, outer, false⟩ =
      some ⟨⟨sum, some (ofProduct ls), 0⟩, outer, true⟩ := by
  match ls with
  | [] => rfl
  | [l] => exact foldlM_step_literal outer sum none l
  | l :: m :: ls =>
      have hfirst := foldlM_step_literal (⟨sum, none, 0⟩ :: outer) none none l
      have hinside := foldlM_step_append hfirst
        (foldlM_step_literals (⟨sum, none, 0⟩ :: outer) none (ofLiteral l) (m :: ls))
      have hgroup : [Token.closing].foldlM step ⟨⟨none,
          some (((m :: ls).map ofLiteral).foldl .and (ofLiteral l)), 0⟩,
          ⟨sum, none, 0⟩ :: outer, true⟩ =
            some ⟨⟨sum, some (ofProduct (l :: m :: ls)), 0⟩, outer, true⟩ := rfl
      exact foldlM_step_append hinside hgroup

theorem exists_foldlM_step_products (level : Level) {e : Expr} (h : level.value? = some e)
    (sum : List (List NamedLiteral)) : ∃ level' : Level,
      (sum.flatMap fun ls => .or :: Token.ofProduct ls).foldlM step ⟨level, outer, true⟩ =
        some ⟨level', outer, true⟩ ∧
      level'.value? = some ((sum.map ofProduct).foldl .or e) := by
  induction sum generalizing level e with
  | nil => exact ⟨level, rfl, h⟩
  | cons ls sum ih =>
      have hor : [Token.or].foldlM step ⟨level, outer, true⟩ =
          some ⟨⟨some e, none, 0⟩, outer, false⟩ := by
        change (level.value?.map _).bind _ = _
        rw [h]
        rfl
      have hproduct := foldlM_step_append hor (foldlM_step_product outer (some e) ls)
      obtain ⟨level', hrest, hvalue⟩ := ih ⟨some e, some (ofProduct ls), 0⟩ rfl
      refine ⟨level', ?_, hvalue⟩
      rw [List.flatMap_cons]
      exact foldlM_step_append hproduct hrest

end step

/-- **The tokens of a sum of products** are read as its expression. -/
theorem parse_ofSum (sum : List (List NamedLiteral)) : parse (Token.ofSum sum) = some (ofSum sum) := by
  cases sum with
  | nil => rfl
  | cons ls sum =>
      have hfirst := foldlM_step_product [] none ls
      obtain ⟨level, hrest, hvalue⟩ :=
        exists_foldlM_step_products [] ⟨none, some (ofProduct ls), 0⟩ rfl sum
      unfold parse
      rw [show (Token.ofSum (ls :: sum)).foldlM step ⟨.empty, [], false⟩ = some ⟨level, [], true⟩
        from foldlM_step_append hfirst hrest]
      exact hvalue

end Expr

/-! ### Texts -/

/-- A longest run of characters ends where the next one does not belong to it. -/
theorem span_append {P : Char → Bool} {cs rest : List Char} (hcs : ∀ c ∈ cs, P c = true)
    (hrest : ∀ c ∈ rest.head?, P c = false) :
    (cs ++ rest).takeWhile P = cs ∧ (cs ++ rest).dropWhile P = rest := by
  have hnil : rest.takeWhile P = [] ∧ rest.dropWhile P = rest := by
    cases rest with
    | nil => exact ⟨rfl, rfl⟩
    | cons c rest =>
        have hc : ¬ P c = true := by simp [hrest c rfl]
        exact ⟨List.takeWhile_cons_of_neg hc, List.dropWhile_cons_of_neg hc⟩
  rw [List.takeWhile_append_of_pos hcs, List.dropWhile_append_of_pos hcs, hnil.1, hnil.2,
    List.append_nil]
  exact ⟨rfl, rfl⟩

namespace Language

/-- A text that does not go on with a name. -/
def Clear (text : List Char) : Prop := ∀ c ∈ text.head?, isNameChar c = false

/-- A text that begins with a character of no name. -/
def Apart (text : List Char) : Prop := ∃ c ∈ text.head?, isNameChar c = false

instance (text : List Char) : Decidable (Apart text) :=
  decidable_of_iff (text.head?.any fun c => !isNameChar c) (by simp [Apart, Option.any_eq_true])

/-- The text is cut into the tokens, unless a name goes on behind it. -/
def Reads (l : Language) (text : List Char) (tokens : List Token) : Prop :=
  ∀ rest, Clear rest → l.lex (text ++ rest) = (l.lex rest).map (tokens ++ ·)

/-- The text is cut into the tokens, whatever stands behind it. -/
def Closed (l : Language) (text : List Char) (tokens : List Token) : Prop :=
  ∀ rest, l.lex (text ++ rest) = (l.lex rest).map (tokens ++ ·)

section Reads

variable {l : Language} {a b : List Char} {ts us : List Token}

theorem Clear.append (ha : Clear a) (hb : Clear b) : Clear (a ++ b) := by
  cases a with
  | nil => exact hb
  | cons c a => exact ha

theorem Apart.append_clear (h : Apart a) (b : List Char) : Clear (a ++ b) := by
  obtain ⟨c, hc, hname⟩ := h
  cases a with
  | nil => exact nomatch hc
  | cons x a =>
      obtain rfl : x = c := Option.some.inj hc
      intro d hd
      obtain rfl : x = d := Option.some.inj hd
      exact hname

theorem Closed.reads (h : l.Closed a ts) : l.Reads a ts := fun rest _ => h rest

theorem Closed.append_reads (ha : l.Closed a ts) (hb : l.Reads b us) :
    l.Reads (a ++ b) (ts ++ us) := by
  intro rest hrest
  rw [List.append_assoc, ha, hb rest hrest, Option.map_map]
  exact congrArg (Option.map · _) (funext fun _ => (List.append_assoc _ _ _).symm)

theorem Reads.append (ha : l.Reads a ts) (hb : l.Reads b us) (hclear : Clear b) :
    l.Reads (a ++ b) (ts ++ us) := by
  intro rest hrest
  rw [List.append_assoc, ha _ (hclear.append hrest), hb rest hrest, Option.map_map]
  exact congrArg (Option.map · _) (funext fun _ => (List.append_assoc _ _ _).symm)

theorem Reads.lex_eq (h : l.Reads a ts) : l.lex a = some ts := by
  have hlex := h [] fun c hc => nomatch hc
  rwa [List.append_nil, show l.lex [] = some [] by rw [lex], Option.map_some,
    List.append_nil] at hlex

theorem reads_flatMap {α : Type} {text : α → List Char} {tokens : α → List Token} {as : List α}
    (h : ∀ a ∈ as, l.Reads (text a) (tokens a)) (hclear : ∀ a ∈ as, Clear (text a)) :
    l.Reads (as.flatMap text) (as.flatMap tokens) ∧ Clear (as.flatMap text) := by
  induction as with
  | nil =>
      have hnil : l.Reads [] [] := fun rest _ => (Option.map_id' (x := l.lex rest)).symm
      exact ⟨hnil, fun c hc => nomatch hc⟩
  | cons a as ih =>
      rw [List.forall_mem_cons] at h hclear
      obtain ⟨hreads, hrest⟩ := ih h.2 hclear.2
      exact ⟨h.1.append hreads hrest, hclear.1.append hrest⟩

theorem reads_name {name : String} (h : isIdentifier name = true) :
    l.Reads name.toList [.name name] := by
  obtain ⟨c, cs, hname, hc, hcs⟩ := isIdentifier_iff.mp h
  intro rest hrest
  obtain ⟨htake, hdrop⟩ := span_append hcs hrest
  rw [hname, List.cons_append, lex, if_neg (by rintro rfl; exact absurd hc (by decide)), if_pos hc,
    htake, hdrop, ← hname, String.ofList_toList]
  rfl

theorem closed_symbol {c : Char} {cs : List Char} {text : String} {token : Token}
    (hblank : c ≠ ' ') (hname : isNameStart c = false)
    (hsymbol : ∀ rest, (l.symbols.find? fun symbol =>
      symbol.1.toList.isPrefixOf (c :: (cs ++ rest))) = some (text, token))
    (hlength : text.length = cs.length + 1) : l.Closed (c :: cs) [token] := by
  intro rest
  have hdrop : (cs ++ rest).drop (text.length - 1) = rest := by
    rw [hlength, Nat.add_sub_cancel, List.drop_left]
  rw [List.cons_append, lex, if_neg hblank, if_neg (by rw [hname]; decide), hsymbol]
  simp only [hdrop]
  rfl

theorem lex_blank (cs : List Char) : l.lex (' ' :: cs) = l.lex cs := by
  rw [lex, if_pos rfl]

theorem Closed.spaced (h : l.Closed a ts) : l.Closed (' ' :: (a ++ [' '])) ts := by
  intro rest
  rw [List.cons_append, lex_blank, List.append_assoc, h, List.singleton_append, lex_blank]

end Reads

end Language

/-! ### Dialects -/

theorem Term.name_mem_of_mem_namedLiterals {names : List String} {t : Term} {m : NamedLiteral}
    (h : m ∈ t.namedLiterals names) : m.name ∈ names := by
  unfold namedLiterals at h
  obtain ⟨⟨name, trit⟩, hmem, hm⟩ := List.mem_filterMap.mp h
  have hname := (List.of_mem_zip hmem).1
  cases trit <;> simp only [Option.some.injEq, reduceCtorEq] at hm
  · rwa [← hm]
  · rwa [← hm]

namespace Dialect

open TwoLevel.Language

/-- The texts of a dialect are tokens of a language. -/
structure SpelledIn (d : Dialect) (l : Language) : Prop where
  complement : l.Closed d.complement.1.toList [.not]
  behind : d.complement.2 = ""
  conjunction : l.Closed d.conjunction.toList [.and] ∧ Apart d.conjunction.toList
  opening : l.Closed d.group.1.toList [.opening]
  closing : l.Closed d.group.2.toList [.closing] ∧ Apart d.group.2.toList
  disjunction : l.Closed d.disjunction.toList [.or] ∧ Apart d.disjunction.toList
  always : l.Closed d.always.toList [.const true]
  never : l.Closed d.never.toList [.const false]

theorem spelledIn_verilog : verilog.SpelledIn .verilog where
  complement := closed_symbol (by decide) (by decide) (fun _ => rfl) rfl
  behind := rfl
  conjunction := by
    have hand : Language.verilog.Closed ['&'] [.and] :=
      closed_symbol (by decide) (by decide) (fun _ => rfl) rfl
    exact ⟨hand.spaced, by decide⟩
  opening := closed_symbol (by decide) (by decide) (fun _ => rfl) rfl
  closing := ⟨closed_symbol (by decide) (by decide) (fun _ => rfl) rfl, by decide⟩
  disjunction := by
    have hor : Language.verilog.Closed ['|'] [.or] :=
      closed_symbol (by decide) (by decide) (fun _ => rfl) rfl
    exact ⟨hor.spaced, by decide⟩
  always := closed_symbol (by decide) (by decide) (fun _ => rfl) rfl
  never := closed_symbol (by decide) (by decide) (fun _ => rfl) rfl

theorem spelledIn_c : c.SpelledIn .c where
  complement := closed_symbol (by decide) (by decide) (fun _ => rfl) rfl
  behind := rfl
  conjunction := by
    have hand : Language.c.Closed ['&', '&'] [.and] :=
      closed_symbol (by decide) (by decide) (fun _ => rfl) rfl
    exact ⟨hand.spaced, by decide⟩
  opening := closed_symbol (by decide) (by decide) (fun _ => rfl) rfl
  closing := ⟨closed_symbol (by decide) (by decide) (fun _ => rfl) rfl, by decide⟩
  disjunction := by
    have hor : Language.c.Closed ['|', '|'] [.or] :=
      closed_symbol (by decide) (by decide) (fun _ => rfl) rfl
    exact ⟨hor.spaced, by decide⟩
  always := closed_symbol (by decide) (by decide) (fun _ => rfl) rfl
  never := closed_symbol (by decide) (by decide) (fun _ => rfl) rfl

/-! ### Reading emitted expressions -/

section SpelledIn

variable {d : Dialect} {l : Language}

theorem SpelledIn.reads_literal (h : d.SpelledIn l) {m : NamedLiteral}
    (hname : isIdentifier m.name = true) : l.Reads (d.literal m).toList (Token.ofLiteral m) := by
  unfold literal Token.ofLiteral
  cases m.positive with
  | true => exact reads_name hname
  | false =>
      have htext : (d.complement.1 ++ m.name ++ d.complement.2).toList =
          d.complement.1.toList ++ m.name.toList := by
        rw [h.behind, String.append_empty, String.toList_append]
      rw [if_neg Bool.false_ne_true, if_neg Bool.false_ne_true, htext]
      exact h.complement.append_reads (reads_name hname)

theorem reads_separated {α : Type} {sep : List Char} {between : Token} {text : α → String}
    {tokens : α → List Token} {as : List α} (hsep : l.Closed sep [between] ∧ Apart sep)
    (h : ∀ a ∈ as, l.Reads (text a).toList (tokens a)) :
    l.Reads (as.flatMap fun a => sep ++ (text a).toList)
        (as.flatMap fun a => between :: tokens a) ∧
      Clear (as.flatMap fun a => sep ++ (text a).toList) :=
  reads_flatMap (fun a ha => hsep.1.append_reads (h a ha)) fun _ _ => hsep.2.append_clear _

theorem SpelledIn.reads_product (h : d.SpelledIn l) {ls : List NamedLiteral}
    (hnames : ∀ m ∈ ls, isIdentifier m.name = true) :
    l.Reads (d.product ls).toList (Token.ofProduct ls) := by
  match ls with
  | [] => exact h.always.reads
  | [m] => exact h.reads_literal (hnames m List.mem_cons_self)
  | m :: n :: ls =>
      have htext : (d.product (m :: n :: ls)).toList = d.group.1.toList ++
          ((d.literal m).toList ++
            (n :: ls).flatMap (fun k => d.conjunction.toList ++ (d.literal k).toList)) ++
          d.group.2.toList := by
        rw [← toList_intercalate_map]
        simp only [product, String.toList_append]
      rw [List.forall_mem_cons] at hnames
      obtain ⟨hreads, hclear⟩ := reads_separated h.conjunction fun k hk =>
        h.reads_literal (hnames.2 k hk)
      have hinside := (h.reads_literal hnames.1).append hreads hclear
      rw [htext]
      have hclosing : Clear d.group.2.toList := by
        simpa using h.closing.2.append_clear []
      exact (h.opening.append_reads hinside).append h.closing.1.reads hclosing

/-- **An emitted sum** is read as the expression of its products. -/
theorem SpelledIn.read_sum (h : d.SpelledIn l) {names : List String}
    (hnames : ∀ name ∈ names, isIdentifier name = true) (terms : List Term) :
    (l.lex (d.sum names terms).toList).bind Expr.parse =
      some (Expr.ofSum (terms.map (Term.namedLiterals names))) := by
  have hterm : ∀ t : Term, l.Reads (d.term names t).toList (Token.ofProduct (t.namedLiterals names)) :=
    fun t => h.reads_product fun m hm => hnames m.name (Term.name_mem_of_mem_namedLiterals hm)
  have hreads : l.Reads (d.sum names terms).toList
      (Token.ofSum (terms.map (Term.namedLiterals names))) := by
    cases terms with
    | nil => exact h.never.reads
    | cons t terms =>
        obtain ⟨hrest, hclear⟩ := reads_separated h.disjunction fun u (_ : u ∈ terms) => hterm u
        have htext : (d.sum names (t :: terms)).toList = (d.term names t).toList ++
            terms.flatMap (fun u => d.disjunction.toList ++ (d.term names u).toList) :=
          toList_intercalate_map d.disjunction (d.term names) t terms
        rw [htext, List.map_cons, Token.ofSum, List.flatMap_map]
        exact (hterm t).append hrest hclear
  rw [hreads.lex_eq]
  exact Expr.parse_ofSum _

end SpelledIn

end Dialect

end TwoLevel
