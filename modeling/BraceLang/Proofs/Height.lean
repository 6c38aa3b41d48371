import BraceLang.Proofs.Recognition

/-!
# How high statements are

A statement that is read opens a level of nesting, and the tree of a `for` loop is four statements
higher than its body. So the limit on levels bounds the height of what is read. On the last level
there is no expression, and so no loop and no `if`, but a statement without expressions. `for` loops
around such a statement, one on each of the other levels, reach the bound.
-/

namespace BraceLang

mutual

/-- How many statements lie inside one another, at most. -/
def Stmt.height : Stmt → Nat
  | .expr _ => 1
  | .var .. => 1
  | .array .. => 1
  | .block statements => 1 + Stmt.eachHeight statements
  | .loop _ body => 1 + body.height
  | .ifThen _ thenBranch => 1 + thenBranch.height
  | .ifElse _ thenBranch elseBranch => 1 + max thenBranch.height elseBranch.height
  | .result .. => 1
  | .empty => 1

def Stmt.eachHeight : List Stmt → Nat
  | [] => 0
  | s :: rest => max s.height (Stmt.eachHeight rest)

end

theorem Stmt.eachHeight_le_iff {ss : List Stmt} {n : Nat} :
    Stmt.eachHeight ss ≤ n ↔ ∀ s ∈ ss, s.height ≤ n := by
  induction ss with
  | nil => simp [eachHeight]
  | cons s ss ih => rw [eachHeight, Nat.max_le, ih, List.forall_mem_cons]

namespace Grammar

/-- A loop adds a block, a `while` loop and two blocks to its body. -/
theorem height_forAsWhile {init : Stmt} (h : init.height = 1) (e i : Expr) (body : Stmt) :
    (forAsWhile init e i body).height = 4 + body.height := by
  simp only [forAsWhile, Stmt.height, Stmt.eachHeight, h]
  omega

def Phrase.HeightWithin (d : Nat) : Phrase → Prop
  | start s => s.height = 1
  | form _ s => s.height ≤ 4 * d + 1
  | stmt _ s => s.height + 3 ≤ 4 * d
  | stmts ss | block ss => ∀ s ∈ ss, s.height + 3 ≤ 4 * d
  | function f => ∀ s ∈ f.body, s.height + 3 ≤ 4 * d
  | functions fs => ∀ f ∈ fs, ∀ s ∈ f.body, s.height + 3 ≤ 4 * d
  | _ => True

theorem Derives.heightWithin {ph : Phrase} {d : Nat} {ts : List Token} (h : Derives ph d ts) :
    ph.HeightWithin d := by
  induction h with
  | stmt _ ih =>
    simp only [Phrase.HeightWithin] at ih ⊢
    omega
  | expr | scalar | array | result | empty => exact Nat.le_add_left 1 _
  | @blockForm ss d _ _ ih =>
    have hss : Stmt.eachHeight ss ≤ 4 * d :=
      Stmt.eachHeight_le_iff.mpr fun s hs => Nat.le_of_add_right_le (ih s hs)
    rw [Phrase.HeightWithin, Stmt.height]
    omega
  | loop _ _ _ _ _ _ ihs | ifThen _ _ _ _ _ _ ihs =>
    simp only [Phrase.HeightWithin, Stmt.height] at ihs ⊢
    omega
  | forLoop _ _ _ _ _ _ _ _ ih₀ _ _ ih₃ =>
    simp only [Phrase.HeightWithin, height_forAsWhile ih₀] at ih₃ ⊢
    omega
  | ifElse _ _ _ _ _ _ _ _ ihs ihs' =>
    simp only [Phrase.HeightWithin, Stmt.height] at ihs ihs' ⊢
    omega
  | varStart | emptyStart | exprStart => rfl
  | block _ _ _ ih => exact ih
  | noStmts | noFunctions => exact fun _ h => nomatch h
  | stmts _ _ ih ihs =>
    refine List.forall_mem_cons.mpr ⟨?_, fun s hs => ?_⟩
    · simp only [Phrase.HeightWithin] at ih
      omega
    · have := ihs s hs
      omega
  | function _ _ _ _ _ _ _ ihb => exact ihb
  | functions _ _ ih ihs =>
    refine List.forall_mem_cons.mpr ⟨fun s hs => ?_, fun f hf s hs => ?_⟩
    · have := ih s hs
      omega
    · have := ihs f hf s hs
      omega
  | _ => trivial

open BraceLang.Grammar.Parser (someToken)

def loops : Nat → Stmt
  | 0 => .empty
  | n + 1 =>
    forAsWhile .empty (.var (someToken .identifier)) (.var (someToken .identifier)) (loops n)

def loopsTokens : Nat → List Token
  | 0 => [someToken .semicolon]
  | n + 1 => [.reservedFor, .leftParen, .semicolon, .identifier, .semicolon, .identifier,
      .rightParen].map someToken ++ loopsTokens n

theorem height_loops (n : Nat) : (loops n).height = 4 * n + 1 := by
  induction n with
  | zero => rfl
  | succ n ih =>
    rw [loops, height_forAsWhile rfl, ih]
    omega

theorem derives_loops (n : Nat) : Derives (.stmt false (loops n)) (n + 1) (loopsTokens n) := by
  induction n with
  | zero => exact .stmt (.empty rfl)
  | succ n ih =>
    have hname := Derives.name (t := someToken .identifier) rfl
    have hstart := Derives.emptyStart (t := someToken .semicolon) rfl
    have h := (Derives.forLoop (w := someToken .reservedFor) (o := someToken .leftParen)
      (a := someToken .semicolon) (c := someToken .rightParen) rfl rfl hstart hname rfl hname rfl
      ih).stmt
    have hlevels : max 0 (max 1 (max 1 (n + 1))) + 1 = n + 1 + 1 := by omega
    exact hlevels ▸ h

def loopsFunction (n : Nat) : Function :=
  ⟨someToken .identifier, someToken .identifier, [], [loops n]⟩

def loopsFunctionTokens (n : Nat) : List Token :=
  [.identifier, .identifier, .leftParen, .rightParen, .leftBrace].map someToken ++ loopsTokens n ++
    [someToken .rightBrace]

theorem derives_loopsFunction (n : Nat) :
    Derives (.functions [loopsFunction n]) (n + 1) (loopsFunctionTokens n) := by
  have hb : Derives (.block [loops n]) _ _ := .block (o := someToken .leftBrace)
    (c := someToken .rightBrace) rfl (.stmts (derives_loops n) .noStmts) rfl
  have hf : Derives (.function (loopsFunction n)) _ _ := .function (o := someToken .leftParen)
    (c := someToken .rightParen) rfl rfl rfl .noParams rfl hb
  simpa [loopsFunctionTokens, loopsFunction, someToken] using Derives.functions hf .noFunctions

/-- Under a limit of `n + 1` levels. -/
theorem height_le_of_limit {n : Nat} {ts : List Token} {p : Program}
    (h : (programParser (n + 1) ts).answer ts = .ok p) {f : Function} (hf : f ∈ p.functions)
    {s : Stmt} (hs : s ∈ f.body) : s.height ≤ 4 * n + 1 := by
  obtain ⟨d, hd, hp⟩ := derives_of_run_program (run_of_answer_ok h)
  have hheight : s.height + 3 ≤ 4 * d := hp.heightWithin f hf s hs
  omega

theorem answer_loopsFunction (n : Nat) :
    (programParser (n + 1) (loopsFunctionTokens n)).answer (loopsFunctionTokens n) =
      .ok ⟨[loopsFunction n]⟩ := by
  have hrun := Derives.run_program (p := ⟨[loopsFunction n]⟩) (derives_loopsFunction n) (n + 1)
  rw [Meets, if_pos (Nat.le_refl _)] at hrun
  exact answer_of_run_ok hrun

theorem parse_loopsFunction :
    parse (loopsFunctionTokens 255) = ⟨some ⟨[loopsFunction 255]⟩, []⟩ :=
  parse_of_ok (answer_loopsFunction 255)

/-- A statement in the body of a function is at most 1021 high, and some are. -/
theorem height_le_of_parse :
    (∀ ts p, parse ts = ⟨some p, []⟩ → ∀ f ∈ p.functions, ∀ s ∈ f.body,
      s.height ≤ 4 * 255 + 1) ∧
    ∃ ts p, parse ts = ⟨some p, []⟩ ∧ ∃ f ∈ p.functions, ∃ s ∈ f.body, s.height = 1021 := by
  refine ⟨fun ts p h f hf s hs => height_le_of_limit (parse_eq_some_iff.mp h) hf hs, ?_⟩
  exact ⟨_, _, parse_loopsFunction, loopsFunction 255, List.mem_singleton_self _, loops 255,
    List.mem_singleton_self _, height_loops 255⟩

/-- With 255 loops inside one another the bound is reached. -/
theorem height_le_of_parse_loops :
    parse (loopsFunctionTokens 255) = ⟨some ⟨[loopsFunction 255]⟩, []⟩ ∧
    (loops 255).height ≤ 4 * 255 + 1 ∧ ¬ (loops 255).height ≤ 4 * 255 := by
  refine ⟨parse_loopsFunction, height_le_of_parse.1 _ _ parse_loopsFunction (loopsFunction 255)
    (List.mem_singleton_self _) _ (List.mem_singleton_self _), ?_⟩
  rw [height_loops]
  decide

end Grammar

end BraceLang
