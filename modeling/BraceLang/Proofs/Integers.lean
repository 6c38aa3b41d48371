import Mathlib.Data.Nat.Digits.Defs
import BraceLang.Proofs.Parts
import BraceLang.Proofs.Pointing

/-!
# The values of integers

An integer has the value that its digits stand for, however many zeros they start with, or it is
refused. The reading of digits goes from left to right; what they stand for is said from the right,
the last digit counting once, the one before it ten times, and so on.
-/

namespace BraceLang

namespace Numeral

def decimal (digits : List Char) : Nat :=
  Nat.ofDigits 10 (digits.reverse.map fun c => c.toNat - '0'.toNat)

structure Digits (text : List Char) : Prop where
  ne_nil : text ≠ []
  isDigit : ∀ c ∈ text, c.isDigit

/-- The text is an optional sign and digits, and the number is what they stand for. -/
inductive Denotes : List Char → Int → Prop
  | plain {digits} : Digits digits → Denotes digits (decimal digits)
  | plus {digits} : Digits digits → Denotes ('+' :: digits) (decimal digits)
  | minus {digits} : Digits digits → Denotes ('-' :: digits) (-decimal digits)

theorem digitsValue_eq_decimal (digits : List Char) : digitsValue digits = decimal digits := by
  rw [decimal, Nat.ofDigits_eq_foldr, List.foldr_map, digitsValue, ← List.foldr_reverse]
  simp [Nat.add_comm]

theorem readNatural?_eq_some_iff {text : List Char} {n : Nat} :
    readNatural? text = some n ↔ Digits text ∧ decimal text = n := by
  have hdigits : text ≠ [] ∧ text.all Char.isDigit ↔ Digits text :=
    ⟨fun ⟨hne, hall⟩ => ⟨hne, List.all_eq_true.mp hall⟩,
      fun h => ⟨h.ne_nil, List.all_eq_true.mpr h.isDigit⟩⟩
  rw [readNatural?, digitsValue_eq_decimal]
  split
  · next h => simp [hdigits.mp h]
  · next h => simp [mt hdigits.mpr h]

/-- Digits are no sign. -/
theorem Digits.readSigned?_eq {digits : List Char} (h : Digits digits) :
    readSigned? digits = (readNatural? digits).map Int.ofNat := by
  unfold readSigned?
  split
  · exact absurd (h.isDigit '+' List.mem_cons_self) (by decide)
  · exact absurd (h.isDigit '-' List.mem_cons_self) (by decide)
  · rfl

theorem readSigned?_eq_some_iff {text : List Char} {v : Int} :
    readSigned? text = some v ↔ Denotes text v := by
  constructor
  · intro h
    unfold readSigned? at h
    split at h
    all_goals
      obtain ⟨n, hn, rfl⟩ := Option.map_eq_some_iff.mp h
      obtain ⟨hdigits, rfl⟩ := readNatural?_eq_some_iff.mp hn
    · exact .plus hdigits
    · exact .minus hdigits
    · exact .plain hdigits
  · intro h
    cases h with
    | plain hdigits =>
      rw [hdigits.readSigned?_eq, readNatural?_eq_some_iff.mpr ⟨hdigits, rfl⟩]
      rfl
    | plus hdigits =>
      rw [readSigned?, readNatural?_eq_some_iff.mpr ⟨hdigits, rfl⟩]
      rfl
    | minus hdigits =>
      rw [readSigned?, readNatural?_eq_some_iff.mpr ⟨hdigits, rfl⟩]
      rfl

theorem readInteger?_eq_some_iff {text : List Char} {v : Int} :
    readInteger? text = some v ↔ Denotes text v ∧ -2 ^ 63 ≤ v ∧ v ≤ 2 ^ 63 - 1 := by
  have hfits : FitsWord v ↔ -2 ^ 63 ≤ v ∧ v ≤ 2 ^ 63 - 1 := Iff.rfl
  rw [readInteger?, Option.filter_eq_some_iff, readSigned?_eq_some_iff, decide_eq_true_iff, hfits]

/-- Digits alone denote what they stand for. -/
theorem Denotes.eq_decimal {digits : List Char} {v : Int} (h : Denotes digits v)
    (hdigits : Digits digits) : v = decimal digits := by
  cases h with
  | plain => rfl
  | plus => exact absurd (hdigits.isDigit '+' List.mem_cons_self) (by decide)
  | minus => exact absurd (hdigits.isDigit '-' List.mem_cons_self) (by decide)

end Numeral

open Numeral (decimal Digits Denotes)

namespace Grammar

open Grammar.Parser

section

variable {t : Token} (ht : t.kind = .intLiteral) (rest : List Token)

include ht

theorem result_integer_of_some {v : Int} (hv : Numeral.readInteger? t.lexeme.toList = some v) :
    (integer (t :: rest)).result = .ok ⟨v, t⟩ := by
  have hrun := run_integer (l := ⟨v, t⟩) ⟨ht, hv⟩ rest
  exact congrArg Prod.fst hrun

theorem result_integer_of_none (hv : Numeral.readInteger? t.lexeme.toList = none) :
    (integer (t :: rest)).result = .error ⟨.integerRange t.lexeme, some t⟩ := by
  have hrun : run integer (t :: rest) = (.error ⟨.integerRange t.lexeme, some t⟩, rest) := by
    rw [integer, run_enter_bind, run_expect_bind _ ht, hv]
    rfl
  exact congrArg Prod.fst hrun

/-- A token of an integer is read as the number that it denotes, if that fits. -/
theorem answer_integer_eq_ok_iff (ts : List Token) (l : IntLiteral) :
    (integer (t :: rest)).answer ts = .ok l ↔
      Denotes t.lexeme.toList l.value ∧ -2 ^ 63 ≤ l.value ∧ l.value ≤ 2 ^ 63 - 1 ∧ l.token = t := by
  have hreads : Denotes t.lexeme.toList l.value ∧ -2 ^ 63 ≤ l.value ∧ l.value ≤ 2 ^ 63 - 1 ∧
      l.token = t ↔ Numeral.readInteger? t.lexeme.toList = some l.value ∧ l.token = t := by
    rw [Numeral.readInteger?_eq_some_iff, and_assoc, and_assoc]
  rw [hreads, Outcome.answer]
  cases hv : Numeral.readInteger? t.lexeme.toList with
  | none =>
    rw [result_integer_of_none ht rest hv]
    constructor
    · intro h
      cases h
    · rintro ⟨h, -⟩
      cases h
  | some v =>
    rw [result_integer_of_some ht rest hv]
    constructor
    · intro h
      obtain rfl := Except.ok.inj h
      exact ⟨rfl, rfl⟩
    · rintro ⟨hvalue, rfl⟩
      obtain rfl := Option.some.inj hvalue
      rfl

/-- Otherwise it is refused. -/
theorem exists_answer_integer_eq_error (ts : List Token)
    (h : ¬ ∃ v, Denotes t.lexeme.toList v ∧ -2 ^ 63 ≤ v ∧ v ≤ 2 ^ 63 - 1) :
    ∃ e, (integer (t :: rest)).answer ts = .error e ∧ e.token = some t ∧ e.location = t.start ∧
      e.message = "Integer literal '" ++ t.lexeme ++ "' is out of range" := by
  have hnone : Numeral.readInteger? t.lexeme.toList = none := by
    rw [Option.eq_none_iff_forall_ne_some]
    exact fun v hv => h ⟨v, Numeral.readInteger?_eq_some_iff.mp hv⟩
  refine ⟨Failure.within ts ⟨.integerRange t.lexeme, some t⟩, ?_, rfl, rfl, rfl⟩
  rw [Outcome.answer, result_integer_of_none ht rest hnone]
  rfl

end

def ReadsIntegers (ts : List Token) : Prop :=
  ∀ t ∈ ts, t.kind = .intLiteral → ∃ v, Numeral.readInteger? t.lexeme.toList = some v

namespace ReadsIntegers

variable {t : Token} {ts us : List Token}

theorem nil : ReadsIntegers [] :=
  fun _ h => nomatch h

theorem append (h : ReadsIntegers ts) (h' : ReadsIntegers us) : ReadsIntegers (ts ++ us) :=
  List.forall_mem_append.mpr ⟨h, h'⟩

theorem integer {l : IntLiteral} (hl : Reads l) (h : ReadsIntegers ts) :
    ReadsIntegers (l.token :: ts) :=
  List.forall_mem_cons.mpr ⟨fun _ => ⟨l.value, hl.value⟩, h⟩

theorem other {k : Kind} (ht : t.kind = k) (hk : k ≠ .intLiteral) (h : ReadsIntegers ts) :
    ReadsIntegers (t :: ts) :=
  List.forall_mem_cons.mpr ⟨fun hint => absurd (ht.symm.trans hint) hk, h⟩

theorem concat_other {k : Kind} (h : ReadsIntegers ts) (ht : t.kind = k) (hk : k ≠ .intLiteral) :
    ReadsIntegers (ts ++ [t]) :=
  h.append (other ht hk nil)

end ReadsIntegers

theorem Rung.ne_intLiteral_of_leftOp? {r : Rung} {k : Kind} {op : BinaryOp}
    (h : r.leftOp? k = some op) : k ≠ .intLiteral := by
  rintro rfl
  cases r <;> cases h

theorem ne_intLiteral_of_unaryOp? {k : Kind} {op : UnaryOp} (h : unaryOp? k = some op) :
    k ≠ .intLiteral := by
  rintro rfl
  cases h

/-- Whatever is read, every integer in it is read. -/
theorem Derives.readsIntegers {ph : Phrase} {d : Nat} {ts : List Token} (h : Derives ph d ts) :
    ReadsIntegers ts := by
  -- two rules take an integer, and no other rule has a token that may be one
  induction h with
  | expression _ ih | tighter _ _ ih | stmt _ ih | blockForm _ ih | value _ ih => exact ih
  | assign _ ht _ ihl ihr | pow _ ht _ ihl ihr => exact ihl.append (.other ht nofun ihr)
  | left _ _ ht _ ihl ihr =>
    exact ihl.append (.other rfl (Rung.ne_intLiteral_of_leftOp? ht) ihr)
  | sign ht _ ih => exact .other rfl (ne_intLiteral_of_unaryOp? ht) ih
  | int hl => exact .integer hl .nil
  | float ht | string ht | var ht | empty ht | emptyStart ht => exact .other ht nofun .nil
  | index ht ho _ hc ih | call ht ho _ hc ih =>
    exact .other ht nofun (.other ho nofun (ih.concat_other hc nofun))
  | parens ho _ hc ih | block ho _ hc ih => exact .other ho nofun (ih.concat_other hc nofun)
  | noArguments | noFurtherArguments | noInitializer | noValue | noStmts | noParams
  | noFurtherParams | noFunctions => exact .nil
  | someArguments _ _ ih ihs | stmts _ _ ih ihs | functions _ _ ih ihs => exact ih.append ihs
  | furtherArguments ht _ _ ih ihs => exact .other ht nofun (ih.append ihs)
  | expr _ ht ih | exprStart _ ht ih => exact ih.concat_other ht nofun
  | scalar ha hb _ ht ih | varStart ha hb _ ht ih =>
    exact .other ha nofun (.other hb nofun (ih.concat_other ht nofun))
  | array ha hb ho hl hc ht =>
    exact .other ha nofun (.other hb nofun (.other ho nofun (.integer hl
      (.other hc nofun (.other ht nofun .nil)))))
  | loop hw ho _ hc _ ih ihs | ifThen hw ho _ hc _ ih ihs =>
    exact .other hw nofun (.other ho nofun (ih.append (.other hc nofun ihs)))
  | forLoop hw ho _ _ ha _ hc _ ih ihc ihi ihs =>
    exact .other hw nofun (.other ho nofun (ih.append (ihc.append (.other ha nofun
      (ihi.append (.other hc nofun ihs))))))
  | ifElse hw ho _ hc _ hl _ ih ihs ihs' =>
    exact .other hw nofun (.other ho nofun (ih.append (.other hc nofun
      (ihs.append (.other hl nofun ihs')))))
  | result hk _ ht ih => exact .other hk nofun (ih.concat_other ht nofun)
  | initializer ht _ ih => exact .other ht nofun ih
  | params ha hb _ ih => exact .other ha nofun (.other hb nofun ih)
  | furtherParams ht ha hb _ ih => exact .other ht nofun (.other ha nofun (.other hb nofun ih))
  | function ha hb ho _ hc _ ihp ihb =>
    exact .other ha nofun (.other hb nofun (.other ho nofun (ihp.append (.other hc nofun ihb))))

/-- An integer in a tree is one of its tokens. -/
theorem Derives.reads_of_int {r : Rung} {l : IntLiteral} {d : Nat} {ts : List Token}
    (h : Derives (.expr r (.int l)) d ts) : Reads l ∧ l.token ∈ ts := by
  generalize hph : Phrase.expr r (.int l) = ph at h
  induction h generalizing r with
  | expression _ ih | tighter _ _ ih =>
    cases hph
    exact ih rfl
  | int hl =>
    cases hph
    exact ⟨hl, List.mem_singleton_self _⟩
  | parens _ _ _ ih =>
    cases hph
    obtain ⟨hl, hmem⟩ := ih rfl
    exact ⟨hl, List.mem_cons_of_mem _ (List.mem_append_left _ hmem)⟩
  | _ => cases hph

theorem Derives.reads_of_array {o : Bool} {a b : Token} {l : IntLiteral} {d : Nat}
    {ts : List Token} (h : Derives (.form o (.array a b l)) d ts) : Reads l ∧ l.token ∈ ts := by
  cases h with
  | array _ _ _ hl => exact ⟨hl, by simp⟩

end Grammar

def Expr.integer? : Expr → Option IntLiteral
  | .int l => some l
  | _ => none

def Stmt.size? : Stmt → Option IntLiteral
  | .array _ _ size => some size
  | _ => none

/-- The integers in a program: those among its expressions, and the sizes of its arrays. -/
def Program.integers (p : Program) : List IntLiteral :=
  p.expressions.filterMap Expr.integer? ++ p.statements.filterMap Stmt.size?

theorem Grammar.Derives.reads_of_mem_integers {p : Program} {d : Nat} {ts : List Token}
    (h : Derives (.functions p.functions) d ts) {l : IntLiteral} (hl : l ∈ p.integers) :
    Reads l ∧ l.token ∈ ts := by
  rcases List.mem_append.mp hl with hl | hl
  · obtain ⟨e, he, hel⟩ := List.mem_filterMap.mp hl
    obtain ⟨us, hus, r, d', hd⟩ := h.within_expressions e he
    cases e with
    | int l' =>
      obtain rfl := Option.some.inj hel
      exact hd.reads_of_int.imp_right fun hmem => hus.subset hmem
    | _ => cases hel
  · obtain ⟨s, hs, hsl⟩ := List.mem_filterMap.mp hl
    obtain ⟨us, hus, hderived⟩ := h.within_statements s hs
    cases s with
    | array a b l' =>
      obtain rfl := Option.some.inj hsl
      obtain ⟨o, d', hd⟩ := hderived rfl
      exact hd.reads_of_array.imp_right fun hmem => hus.subset hmem
    | _ => cases hsl

/-- The lexer gives an integer no sign. -/
theorem digits_of_mem_tokens {source : String} {t : Token} (ht : t ∈ (tokenize source).tokens)
    (hkind : t.kind = .intLiteral) : Digits t.lexeme.toList := by
  obtain ⟨-, -, -, hspells, -⟩ := exists_drop_of_mem_tokens ht
  rw [hkind] at hspells
  exact ⟨hspells.1, hspells.2⟩

section

variable {source : String} {p : Program} (h : compile source = .ok p)

include h

theorem value_eq_of_mem_integers {l : IntLiteral} (hl : l ∈ p.integers) :
    l.token ∈ (tokenize source).tokens ∧ Digits l.token.lexeme.toList ∧
      l.value = decimal l.token.lexeme.toList ∧ 0 ≤ l.value ∧ l.value ≤ 2 ^ 63 - 1 := by
  obtain ⟨d, -, hd⟩ := (Grammar.recognizes_parseProgram.ok_iff _ _).mp (compile_ok_iff.mp h).2
  obtain ⟨hreads, hmem⟩ := hd.reads_of_mem_integers hl
  have hdigits := digits_of_mem_tokens hmem hreads.kind
  obtain ⟨hdenotes, -, hle⟩ := Numeral.readInteger?_eq_some_iff.mp hreads.value
  have hvalue := hdenotes.eq_decimal hdigits
  exact ⟨hmem, hdigits, hvalue, hvalue ▸ Int.natCast_nonneg _, hle⟩

theorem decimal_le_of_mem_tokens {t : Token} (ht : t ∈ (tokenize source).tokens)
    (hkind : t.kind = .intLiteral) : (decimal t.lexeme.toList : Int) ≤ 2 ^ 63 - 1 := by
  obtain ⟨d, -, hd⟩ := (Grammar.recognizes_parseProgram.ok_iff _ _).mp (compile_ok_iff.mp h).2
  obtain ⟨v, hv⟩ := hd.readsIntegers t ht hkind
  obtain ⟨hdenotes, -, hle⟩ := Numeral.readInteger?_eq_some_iff.mp hv
  rwa [hdenotes.eq_decimal (digits_of_mem_tokens ht hkind)] at hle

end

open Grammar.Parser (integer) in
/-- A token of an integer is read as exactly the number that it denotes, or it is refused as out of
range. So the integers in the tree of a source are what their digits stand for, and no source with a
larger one is accepted. -/
theorem integers_read_exactly :
    (∀ (t : Token) (rest ts : List Token), t.kind = .intLiteral →
      (∀ l, (integer (t :: rest)).answer ts = .ok l ↔
        Denotes t.lexeme.toList l.value ∧ -2 ^ 63 ≤ l.value ∧ l.value ≤ 2 ^ 63 - 1 ∧
          l.token = t) ∧
      ((¬ ∃ v, Denotes t.lexeme.toList v ∧ -2 ^ 63 ≤ v ∧ v ≤ 2 ^ 63 - 1) →
        ∃ e, (integer (t :: rest)).answer ts = .error e ∧ e.token = some t ∧
          e.location = t.start ∧
          e.message = "Integer literal '" ++ t.lexeme ++ "' is out of range")) ∧
    ∀ source,
      (∀ p, compile source = .ok p → ∀ l ∈ p.integers,
        l.token ∈ (tokenize source).tokens ∧ Digits l.token.lexeme.toList ∧
          l.value = decimal l.token.lexeme.toList ∧ 0 ≤ l.value ∧ l.value ≤ 2 ^ 63 - 1) ∧
      ∀ t ∈ (tokenize source).tokens, t.kind = .intLiteral → 2 ^ 63 - 1 < decimal t.lexeme.toList →
        ∀ p, compile source ≠ .ok p := by
  refine ⟨fun t rest ts ht => ⟨Grammar.answer_integer_eq_ok_iff ht rest ts,
    Grammar.exists_answer_integer_eq_error ht rest ts⟩, fun source => ⟨fun p hp l hl =>
      value_eq_of_mem_integers hp hl, fun t ht hkind hlarge p hp => ?_⟩⟩
  have hle := decimal_le_of_mem_tokens hp ht hkind
  omega

/-- The smallest number and one more than the largest one as tokens, and the largest one, with zeros
in front, and one more than it in sources. -/
theorem integers_read_exactly_bounds :
    let token (lexeme : String) : Token := ⟨.intLiteral, .origin, .origin, lexeme⟩
    Denotes "-9223372036854775808".toList (-9223372036854775808) ∧
    (∃ e, (Grammar.Parser.integer [token "+9223372036854775808"]).answer [] = .error e ∧
      e.message = "Integer literal '+9223372036854775808' is out of range") ∧
    (∃ p, compile "f g()\x7bint a[0009223372036854775807];\x7d" = .ok p ∧
      p.integers.map IntLiteral.value = [9223372036854775807] ∧
      ∀ l ∈ p.integers, l.value = decimal l.token.lexeme.toList) ∧
    ∀ p, compile "f g()\x7breturn 9223372036854775808;\x7d" ≠ .ok p := by
  intro token
  obtain ⟨htokens, hsources⟩ := integers_read_exactly
  refine ⟨?_, ?_, ?_, ?_⟩
  · have hread : (Grammar.Parser.integer [token "-9223372036854775808"]).answer [] =
        .ok ⟨-9223372036854775808, token "-9223372036854775808"⟩ := by decide +kernel
    exact (((htokens _ _ _ rfl).1 _).mp hread).1
  · obtain ⟨hok, herror⟩ := htokens (token "+9223372036854775808") [] [] rfl
    have hrefused : ((Grammar.Parser.integer [token "+9223372036854775808"]).answer []).toOption =
        none := by decide +kernel
    obtain ⟨e, he, -, -, hmessage⟩ := herror fun ⟨v, hdenotes, hge, hle⟩ => by
      rw [(hok ⟨v, token "+9223372036854775808"⟩).mpr ⟨hdenotes, hge, hle, rfl⟩] at hrefused
      cases hrefused
    exact ⟨e, he, hmessage⟩
  · have hvalues : (compile "f g()\x7bint a[0009223372036854775807];\x7d").toOption.map
        (fun p => p.integers.map IntLiteral.value) = some [9223372036854775807] := by
      decide +kernel
    obtain ⟨p, hp, hvalues⟩ := exists_of_map_toOption hvalues
    exact ⟨p, hp, hvalues, fun l hl => ((hsources _).1 p hp l hl).2.2.1⟩
  · have hlarge : ∃ t ∈ (tokenize "f g()\x7breturn 9223372036854775808;\x7d").tokens,
        t.kind = .intLiteral ∧ 2 ^ 63 - 1 < decimal t.lexeme.toList := by decide +kernel
    obtain ⟨t, ht, hkind, hlt⟩ := hlarge
    exact (hsources _).2 t ht hkind hlt

end BraceLang
