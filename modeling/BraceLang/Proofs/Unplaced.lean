import BraceLang.Tree.Printed

/-!
# Trees without places

`mapTokens f` puts `f t` for each token `t` of a tree, and the tree of `unplaced` tokens is what is
left of a tree when all places are forgotten. The text of a tree does not depend on them.
-/

namespace BraceLang

def Token.unplaced (t : Token) : Token :=
  ⟨t.kind, .origin, .origin, t.lexeme⟩

variable (f : Token → Token)

mutual

def Expr.mapTokens : Expr → Expr
  | .int literal => .int ⟨literal.value, f literal.token⟩
  | .float value token => .float value (f token)
  | .string value token => .string value (f token)
  | .var name => .var (f name)
  | .index name place => .index (f name) place.mapTokens
  | .call name args => .call (f name) (Expr.mapEach args)
  | .unary op operator operand => .unary op (f operator) operand.mapTokens
  | .binary op operator lhs rhs => .binary op (f operator) lhs.mapTokens rhs.mapTokens

def Expr.mapEach : List Expr → List Expr
  | [] => []
  | e :: rest => e.mapTokens :: Expr.mapEach rest

end

theorem Expr.mapEach_eq_map (es : List Expr) : Expr.mapEach f es = es.map (Expr.mapTokens f) := by
  induction es with
  | nil => rfl
  | cons e rest ih => rw [mapEach, ih, List.map_cons]

mutual

def Stmt.mapTokens : Stmt → Stmt
  | .expr e => .expr (e.mapTokens f)
  | .var type name init => .var (f type) (f name) (init.map (Expr.mapTokens f))
  | .array type name size => .array (f type) (f name) ⟨size.value, f size.token⟩
  | .block statements => .block (Stmt.mapEach statements)
  | .loop condition body => .loop (condition.mapTokens f) body.mapTokens
  | .ifThen condition thenBranch => .ifThen (condition.mapTokens f) thenBranch.mapTokens
  | .ifElse condition thenBranch elseBranch =>
    .ifElse (condition.mapTokens f) thenBranch.mapTokens elseBranch.mapTokens
  | .result keyword value => .result (f keyword) (value.map (Expr.mapTokens f))
  | .empty => .empty

def Stmt.mapEach : List Stmt → List Stmt
  | [] => []
  | s :: rest => s.mapTokens :: Stmt.mapEach rest

end

theorem Stmt.mapEach_eq_map (ss : List Stmt) : Stmt.mapEach f ss = ss.map (Stmt.mapTokens f) := by
  induction ss with
  | nil => rfl
  | cons s rest ih => rw [mapEach, ih, List.map_cons]

def Param.mapTokens (p : Param) : Param :=
  ⟨f p.type, f p.name⟩

def Function.mapTokens (g : Function) : Function :=
  ⟨f g.returnType, f g.name, g.params.map (Param.mapTokens f), g.body.map (Stmt.mapTokens f)⟩

def Program.mapTokens (p : Program) : Program :=
  ⟨p.functions.map (Function.mapTokens f)⟩

def Expr.unplaced (e : Expr) : Expr :=
  e.mapTokens Token.unplaced

def Stmt.unplaced (s : Stmt) : Stmt :=
  s.mapTokens Token.unplaced

def Function.unplaced (g : Function) : Function :=
  g.mapTokens Token.unplaced

def Program.unplaced (p : Program) : Program :=
  p.mapTokens Token.unplaced

theorem Expr.mapTokens_mapTokens (g : Token → Token) (e : Expr) :
    (e.mapTokens f).mapTokens g = e.mapTokens (g ∘ f) := by
  induction e with
  | int literal => rfl
  | float value token => rfl
  | string value token => rfl
  | var name => rfl
  | index name place ih => simp only [mapTokens, Function.comp, ih]
  | call name args ih =>
    have hargs : (args.map (mapTokens f)).map (mapTokens g) = args.map (mapTokens (g ∘ f)) := by
      rw [List.map_map]
      exact List.map_congr_left ih
    simp only [mapTokens, mapEach_eq_map, Function.comp, hargs]
  | unary op operator operand ih => simp only [mapTokens, Function.comp, ih]
  | binary op operator lhs rhs ihl ihr => simp only [mapTokens, Function.comp, ihl, ihr]

theorem Expr.mapTokens_comp (g : Token → Token) :
    Expr.mapTokens g ∘ Expr.mapTokens f = Expr.mapTokens (g ∘ f) :=
  funext (Expr.mapTokens_mapTokens f g)

theorem Stmt.mapTokens_mapTokens (g : Token → Token) (s : Stmt) :
    (s.mapTokens f).mapTokens g = s.mapTokens (g ∘ f) := by
  induction s with
  | expr e => simp only [mapTokens, Expr.mapTokens_mapTokens]
  | var type name init =>
    simp only [mapTokens, Option.map_map, Expr.mapTokens_comp, Function.comp_apply]
  | array type name size => rfl
  | block statements ih =>
    have hstatements : (statements.map (mapTokens f)).map (mapTokens g) =
        statements.map (mapTokens (g ∘ f)) := by
      rw [List.map_map]
      exact List.map_congr_left ih
    simp only [mapTokens, mapEach_eq_map, hstatements]
  | loop condition body ih => simp only [mapTokens, Expr.mapTokens_mapTokens, ih]
  | ifThen condition thenBranch ih => simp only [mapTokens, Expr.mapTokens_mapTokens, ih]
  | ifElse condition thenBranch elseBranch ih ih' =>
    simp only [mapTokens, Expr.mapTokens_mapTokens, ih, ih']
  | result keyword value =>
    simp only [mapTokens, Option.map_map, Expr.mapTokens_comp, Function.comp_apply]
  | empty => rfl

theorem Function.mapTokens_mapTokens (g : Token → Token) (h : Function) :
    (h.mapTokens f).mapTokens g = h.mapTokens (g ∘ f) := by
  have hbody : Stmt.mapTokens g ∘ Stmt.mapTokens f = Stmt.mapTokens (g ∘ f) :=
    funext (Stmt.mapTokens_mapTokens f g)
  simp only [mapTokens, List.map_map, hbody]
  rfl

theorem Program.mapTokens_mapTokens (g : Token → Token) (p : Program) :
    (p.mapTokens f).mapTokens g = p.mapTokens (g ∘ f) := by
  have hfunctions : Function.mapTokens g ∘ Function.mapTokens f = Function.mapTokens (g ∘ f) :=
    funext (Function.mapTokens_mapTokens f g)
  simp only [mapTokens, List.map_map, hfunctions]

variable {f} (hf : ∀ t, (f t).lexeme = t.lexeme)

include hf

theorem Piece.ident_map (t : Token) : ident (f t) = ident t := by
  rw [ident, ident, hf]

theorem Expr.pieces_mapTokens (e : Expr) : (e.mapTokens f).pieces = e.pieces := by
  induction e with
  | int literal => simp only [mapTokens, pieces, hf]
  | float value token => simp only [mapTokens, pieces, hf]
  | string value token => rfl
  | var name => simp only [mapTokens, pieces, Piece.ident_map hf]
  | index name place ih => simp only [mapTokens, pieces, Piece.ident_map hf, ih]
  | call name args ih =>
    have hargs : (args.map (mapTokens f)).map pieces = args.map pieces := by
      rw [List.map_map]
      exact List.map_congr_left fun e he => ih e he
    simp only [mapTokens, pieces, Piece.ident_map hf, mapEach_eq_map, eachPieces_eq_map, hargs]
  | unary op operator operand ih => simp only [mapTokens, pieces, ih]
  | binary op operator lhs rhs ihl ihr => simp only [mapTokens, pieces, ihl, ihr]

omit hf in
theorem Stmt.isBlock_mapTokens (s : Stmt) : (s.mapTokens f).isBlock = s.isBlock := by
  cases s <;> rfl

theorem Stmt.lines_mapTokens (s : Stmt) : (s.mapTokens f).lines = s.lines := by
  induction s with
  | expr e => simp only [mapTokens, lines, Expr.pieces_mapTokens hf]
  | var type name init =>
    cases init with
    | none => simp only [mapTokens, Option.map_none, lines, Piece.ident_map hf]
    | some e => simp only [mapTokens, Option.map_some, lines, Piece.ident_map hf,
        Expr.pieces_mapTokens hf]
  | array type name size => simp only [mapTokens, lines, Piece.ident_map hf, hf]
  | block statements ih =>
    have hlines : (statements.map (mapTokens f)).flatMap lines = statements.flatMap lines := by
      rw [List.flatMap_def, List.flatMap_def, List.map_map]
      exact congrArg List.flatten (List.map_congr_left fun s hs => ih s hs)
    simp only [mapTokens, lines, mapEach_eq_map, eachLines_eq_flatMap, hlines]
  | loop condition body ih =>
    simp only [mapTokens, lines, Expr.pieces_mapTokens hf, isBlock_mapTokens, ih]
  | ifThen condition thenBranch ih =>
    simp only [mapTokens, lines, Expr.pieces_mapTokens hf, isBlock_mapTokens, ih]
  | ifElse condition thenBranch elseBranch ih ih' =>
    simp only [mapTokens, lines, Expr.pieces_mapTokens hf, isBlock_mapTokens, ih, ih']
  | result keyword value =>
    cases value with
    | none => rfl
    | some e => simp only [mapTokens, Option.map_some, lines, Expr.pieces_mapTokens hf]
  | empty => rfl

theorem Function.lines_mapTokens (g : Function) : (g.mapTokens f).lines = g.lines := by
  have hparams : (g.params.map (Param.mapTokens f)).map Param.pieces =
      g.params.map Param.pieces := by
    rw [List.map_map]
    exact List.map_congr_left fun p _ => by
      simp only [Function.comp, Param.mapTokens, Param.pieces, Piece.ident_map hf]
  have hbody : (g.body.map (Stmt.mapTokens f)).flatMap Stmt.lines = g.body.flatMap Stmt.lines := by
    rw [List.flatMap_def, List.flatMap_def, List.map_map]
    exact congrArg List.flatten (List.map_congr_left fun s _ => s.lines_mapTokens hf)
  simp only [mapTokens, lines, Piece.ident_map hf, hparams, Stmt.eachLines_eq_flatMap, hbody]

/-- The text of a program is made of the lexemes of its tokens. -/
theorem Program.text_mapTokens (p : Program) : (p.mapTokens f).text = p.text := by
  have hlines : (p.functions.map (Function.mapTokens f)).map Function.lines =
      p.functions.map Function.lines := by
    rw [List.map_map]
    exact List.map_congr_left fun g _ => g.lines_mapTokens hf
  simp only [Program.text, Program.lines, mapTokens, hlines]

omit hf in
theorem Program.text_eq_of_unplaced_eq {p q : Program} (h : q.unplaced = p.unplaced) :
    q.text = p.text := by
  have hlexeme : ∀ t : Token, t.unplaced.lexeme = t.lexeme := fun _ => rfl
  calc q.text = q.unplaced.text := (q.text_mapTokens hlexeme).symm
    _ = p.unplaced.text := by rw [h]
    _ = p.text := p.text_mapTokens hlexeme

end BraceLang
