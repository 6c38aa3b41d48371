import BraceLang.Proofs.Parts
import BraceLang.Proofs.RoundTrip

/-!
# Every `else` has its `if`

No `if` that is still open is the first branch of an `if` with an `else`: the parser gives an `else`
to the last `if` that is open, and so an `if` comes by its own `else` only where none in its first
branch is. So the text of a tree needs no braces around that branch. Read again, the branch stops in
front of the `else`.
-/

namespace BraceLang

open Grammar

namespace Grammar

def Phrase.MarksOpenIf : Phrase → Prop
  | form o s | stmt o s => s.openIf = true → o = true
  | _ => True

theorem Derives.marksOpenIf {ph : Phrase} {d : Nat} {ts : List Token} (h : Derives ph d ts) :
    ph.MarksOpenIf := by
  induction h with
  | stmt _ ih => exact ih
  | expr | scalar | array | blockForm | forLoop | result | empty => exact fun h => nomatch h
  | loop _ _ _ _ _ _ ihs => exact ihs
  | ifThen => exact fun _ => rfl
  | ifElse _ _ _ _ _ _ _ _ _ ihs' => exact ihs'
  | _ => trivial

/-- The first branch of an `if` with an `else` is derived as a statement that is not open. -/
theorem Derives.openIf_eq_false {o : Bool} {e : Expr} {s s' : Stmt} {d : Nat} {ts : List Token}
    (h : Derives (.form o (.ifElse e s s')) d ts) : s.openIf = false := by
  generalize hs : Stmt.ifElse e s s' = form at h
  cases h with
  | ifElse _ _ _ _ hbranch =>
    cases hs
    exact Bool.eq_false_iff.mpr fun hopen => Bool.false_ne_true (hbranch.marksOpenIf hopen)
  | _ => cases hs

end Grammar

/-- An `if` with an `else` anywhere in a program is derived from some of its tokens. -/
theorem Grammar.exists_derives_ifElse {ts : List Token} {p : Program} {e : Expr} {s s' : Stmt}
    (h : parseProgram ts = .ok p) (hs : .ifElse e s s' ∈ p.statements) :
    ∃ o d us, us <:+: ts ∧ Derives (.form o (.ifElse e s s')) d us := by
  obtain ⟨d, -, hd⟩ := (recognizes_parseProgram.ok_iff ts p).mp h
  obtain ⟨us, hus, hform⟩ := hd.within_statements _ hs
  obtain ⟨o, d', hd'⟩ := hform rfl
  exact ⟨o, d', us, hus, hd'⟩

/-- Tokens with the words of the statement and an `else` behind them are read as the statement, and
the `else` is left, whatever comes then. -/
def Stmt.LeavesElse (s : Stmt) : Prop :=
  ∀ us l rest room, Carries us (Line.joined s.lines) → l.kind = .reservedElse → s.need ≤ room →
    ∃ s' : Stmt, s'.unplaced = s.unplaced ∧
      Parser.run (Parser.statement (.within room)) (us ++ l :: rest) = (.ok s', l :: rest)

theorem Stmt.Formed.leavesElse {s : Stmt} (h : s.Formed) (hopen : s.openIf = false) :
    s.LeavesElse := by
  intro us l rest room hus _ hroom
  obtain ⟨s', hsame, hd⟩ := h.rereads us hus
  rw [hopen] at hd
  have hrun := hd.parsed room (l :: rest) (fun h => nomatch h)
  rw [Meets, if_pos hroom] at hrun
  exact ⟨s', hsame, hrun⟩

/-- In no program that is read does the first branch of an `if` with an `else` end with an `if` that
is open. So in the text of such a program the `else` behind the branch is none that the branch would
take, if the tokens are spelled as those of a source are. -/
theorem else_of_nearest_if {ts : List Token} {p : Program} (h : parse ts = ⟨some p, []⟩) {e : Expr}
    {s s' : Stmt} (hs : .ifElse e s s' ∈ p.statements) :
    s.openIf = false ∧ (Spelled ts → s.LeavesElse) := by
  obtain ⟨o, d, us, hus, hd⟩ := exists_derives_ifElse (parse_eq_some_iff.mp h) hs
  refine ⟨hd.openIf_eq_false, fun hts => ?_⟩
  have hspelled : Spelled us := fun t ht => hts t (hus.subset ht)
  cases (hd.formed hspelled).1 with
  | ifElse _ hbranch hopen _ => exact hbranch.leavesElse hopen

def Stmt.guardedBranch? : Stmt → Option Stmt
  | .ifElse _ s _ => some s
  | _ => none

/-- The outer one of two `else` in a row, with a loop and an `if` between its own `if` and it. -/
theorem else_of_nearest_if_of_loop : ∃ p e s s',
    compile "f g()\x7bif(a)while(b)if(c)d;else e;else h;\x7d" = .ok p ∧
    .ifElse e s s' ∈ p.statements ∧
    Line.textOf s.lines = "while (b)\n    if (c)\n        d;\n    else\n        e;\n" ∧
    s.openIf = false ∧ s.LeavesElse := by
  have hbranches : (compile "f g()\x7bif(a)while(b)if(c)d;else e;else h;\x7d").toOption.map
      (fun p => (p.statements.filterMap Stmt.guardedBranch?).map fun s => Line.textOf s.lines) =
      some ["while (b)\n    if (c)\n        d;\n    else\n        e;\n", "d;\n"] := by
    decide +kernel
  obtain ⟨p, hp, hbranches⟩ := exists_of_map_toOption hbranches
  obtain ⟨s, hs, htext⟩ := List.mem_map.mp (hbranches ▸ List.mem_cons_self)
  obtain ⟨n, hn, hbranch⟩ := List.mem_filterMap.mp hs
  cases n with
  | ifElse e s₁ s' =>
    obtain rfl : s₁ = s := Option.some.inj hbranch
    obtain ⟨herrors, hparse⟩ := compile_ok_iff.mp hp
    obtain ⟨hopen, hleaves⟩ := else_of_nearest_if (parse_of_ok hparse) hn
    exact ⟨p, e, s₁, s', hp, hn, htext, hopen,
      hleaves fun t ht => writes_of_mem_tokens herrors ht⟩
  | _ => cases hbranch

end BraceLang
