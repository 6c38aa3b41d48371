import BraceLang.Diagnostic.Display
import Mathlib.Data.List.Forall2

/-!
# Colors change nothing but colors

What a diagnostic is shown with in color is what it is shown with in plain text, and commands to the
terminal between its parts. So the plain text is left if the commands are taken out, as long as
nothing in the messages and in the lines of the source could be taken for one.

Taking out commands goes through a text from its front. `Erases` is stated for a text with anything
behind it, so it is closed under putting texts together, and each part is looked at alone.
-/

namespace BraceLang

def escape : Char :=
  '\x1b'

def isParameter (c : Char) : Bool :=
  c.isDigit || c = ';'

/-- An escape and a bracket, digits and semicolons, and an `m`. -/
def IsCommand (text : List Char) : Prop :=
  ∃ parameters, text = escape :: '[' :: (parameters ++ ['m']) ∧ ∀ c ∈ parameters, isParameter c

def commandLength? : List Char → Option Nat
  | c :: d :: rest =>
    let parameters := rest.takeWhile isParameter
    if c = escape ∧ d = '[' ∧ (rest.dropWhile isParameter).head? = some 'm' then
      some (parameters.length + 3)
    else none
  | _ => none

/-- A text without its first characters, `skip` many, and without the commands behind them. -/
def eraseCommandsAfter : Nat → List Char → List Char
  | _, [] => []
  | skip + 1, _ :: rest => eraseCommandsAfter skip rest
  | 0, c :: rest =>
    match commandLength? (c :: rest) with
    | some n => eraseCommandsAfter (n - 1) rest
    | none => c :: eraseCommandsAfter 0 rest

def eraseCommands (text : List Char) : List Char :=
  eraseCommandsAfter 0 text

@[simp] theorem eraseCommands_nil : eraseCommands [] = [] := rfl

theorem eraseCommandsAfter_eq_drop (n : Nat) (text : List Char) :
    eraseCommandsAfter n text = eraseCommands (text.drop n) := by
  induction text generalizing n with
  | nil => cases n <;> rfl
  | cons c rest ih =>
    cases n with
    | zero => rfl
    | succ n => exact ih n

theorem commandLength?_append {command : List Char} (h : IsCommand command) (rest : List Char) :
    commandLength? (command ++ rest) = some command.length := by
  obtain ⟨parameters, rfl, hparameters⟩ := h
  have htake : (parameters ++ 'm' :: rest).takeWhile isParameter = parameters := by
    rw [List.takeWhile_append_of_pos hparameters, List.takeWhile_cons_of_neg (by decide),
      List.append_nil]
  have hdrop : (parameters ++ 'm' :: rest).dropWhile isParameter = 'm' :: rest := by
    rw [List.dropWhile_append_of_pos hparameters, List.dropWhile_cons_of_neg (by decide)]
  have htext : escape :: '[' :: (parameters ++ ['m']) ++ rest =
      escape :: '[' :: (parameters ++ 'm' :: rest) := by simp
  rw [htext, commandLength?]
  simp only [htake, hdrop, List.head?_cons, and_self, if_true, List.length_cons,
    List.length_append, List.length_nil]

theorem isCommand_of_commandLength? {text : List Char} {n : Nat}
    (h : commandLength? text = some n) : IsCommand (text.take n) := by
  rcases text with _ | ⟨c, _ | ⟨d, rest⟩⟩
  · cases h
  · cases h
  rw [commandLength?] at h
  split at h
  · next hcommand =>
    obtain ⟨rfl, rfl, hend⟩ := hcommand
    obtain rfl := Option.some.inj h
    obtain ⟨more, hmore⟩ := List.head?_eq_some_iff.mp hend
    refine ⟨rest.takeWhile isParameter, ?_, fun c hc => ?_⟩
    · have hrest := List.takeWhile_append_dropWhile (p := isParameter) (l := rest)
      rw [hmore] at hrest
      have hsplit : escape :: '[' :: rest =
          escape :: '[' :: (rest.takeWhile isParameter ++ ['m']) ++ more := by
        conv => lhs; rw [← hrest]
        simp
      rw [hsplit]
      exact List.take_left' (by simp)
    · exact List.all_eq_true.mp List.all_takeWhile c hc
  · cases h

/-- A command is taken out. -/
theorem eraseCommands_append {command : List Char} (h : IsCommand command) (rest : List Char) :
    eraseCommands (command ++ rest) = eraseCommands rest := by
  have hlength := commandLength?_append h rest
  obtain ⟨parameters, rfl, -⟩ := h
  rw [List.cons_append] at hlength ⊢
  rw [eraseCommands, eraseCommandsAfter, hlength]
  simp only [eraseCommandsAfter_eq_drop, List.length_cons, Nat.add_sub_cancel]
  rw [← List.length_cons, List.drop_left]

/-- A character that starts no command is kept. -/
theorem eraseCommands_cons {c : Char} {rest : List Char}
    (h : ∀ command, IsCommand command → ¬ command <+: c :: rest) :
    eraseCommands (c :: rest) = c :: eraseCommands rest := by
  have hnone : commandLength? (c :: rest) = none := by
    rw [Option.eq_none_iff_forall_ne_some]
    intro n hn
    exact h _ (isCommand_of_commandLength? hn) (List.take_prefix n _)
  rw [eraseCommands, eraseCommandsAfter, hnone]
  rfl

/-- A character other than an escape starts no command. -/
theorem eraseCommands_cons_of_ne {c : Char} (h : c ≠ escape) (rest : List Char) :
    eraseCommands (c :: rest) = c :: eraseCommands rest := by
  refine eraseCommands_cons fun command hcommand hprefix => h ?_
  obtain ⟨parameters, rfl, -⟩ := hcommand
  exact (List.cons_prefix_cons.mp hprefix).1.symm

/-- The first text without its commands is the second one, whatever stands behind it. -/
def Erases (text plain : String) : Prop :=
  ∀ rest, eraseCommands (text.toList ++ rest) = plain.toList ++ eraseCommands rest

namespace Erases

theorem append {s s' t t' : String} (hs : Erases s s') (ht : Erases t t') :
    Erases (s ++ t) (s' ++ t') := by
  intro rest
  rw [String.toList_append, String.toList_append, List.append_assoc, hs, ht, List.append_assoc]

theorem command {parameters : String} (h : parameters.toList.all isParameter) :
    Erases (Style.command parameters) "" := by
  have htext : (Style.command parameters).toList =
      escape :: '[' :: (parameters.toList ++ ['m']) := by
    simp [Style.command, escape]
  intro rest
  exact eraseCommands_append ⟨_, htext, List.all_eq_true.mp h⟩ rest

/-- A text without escapes is kept as it stands. -/
theorem of_notMem {s : String} (h : escape ∉ s.toList) : Erases s s := by
  intro rest
  generalize s.toList = text at h
  induction text with
  | nil => rfl
  | cons c text ih =>
    rw [List.mem_cons, not_or] at h
    rw [List.cons_append, eraseCommands_cons_of_ne (Ne.symm h.1), ih h.2, List.cons_append]

theorem join {ss ss' : List String} (h : List.Forall₂ Erases ss ss') :
    Erases (String.join ss) (String.join ss') := by
  induction h with
  | nil => exact fun _ => rfl
  | cons hs _ ih =>
    rw [String.join_cons, String.join_cons]
    exact hs.append ih

end Erases

theorem erases_nat (n : Nat) : Erases (toString n) (toString n) :=
  .of_notMem fun h => absurd (Location.isDigit_of_mem_toString h) (by decide)

theorem erases_spaces (n : Nat) :
    Erases (String.ofList (List.replicate n ' ')) (String.ofList (List.replicate n ' ')) := by
  apply Erases.of_notMem
  intro h
  rw [String.toList_ofList] at h
  exact absurd (List.eq_of_mem_replicate h) (by decide)

structure Style.Invisible (style : Style) : Prop where
  strong : Erases style.strong ""
  alarm : Erases style.alarm ""
  pointer : Erases style.pointer ""
  stop : Erases style.stop ""

theorem Style.invisible_colored : Style.colored.Invisible where
  strong := .command (by decide)
  alarm := Erases.append (.command (by decide)) (.command (by decide))
  pointer := Erases.append (.command (by decide)) (.command (by decide))
  stop := .command (by decide)

theorem Style.invisible_colorless : Style.colorless.Invisible where
  strong := .command (by decide)
  alarm := Erases.append (.command (by decide)) (.command (by decide))
  pointer := Erases.append (.command (by decide)) (.command (by decide))
  stop := .command (by decide)

namespace Diagnostic

variable {style : Style} {d : Diagnostic}

theorem erases_location (p : Location) : Erases p.text p.text :=
  ((erases_nat p.line).append (.of_notMem (by decide))).append (erases_nat p.column)

theorem erases_header (hstyle : style.Invisible) (hmessage : escape ∉ d.message.toList) :
    Erases (d.header style) d.text := by
  have hlit : ∀ s ∈ [":", " ", "error:", ": "], Erases s s := by
    intro s hs
    apply Erases.of_notMem
    revert s
    decide
  have hlabel : Erases d.stage.label d.stage.label := by
    cases d.stage <;> exact .of_notMem (by decide)
  have hstage := ((hstyle.strong.append hlabel).append (hlit ":" (by simp))).append hstyle.stop
  have halarm := (((hstage.append (hlit " " (by simp))).append hstyle.alarm).append
    (hlit "error:" (by simp))).append hstyle.stop
  have hplace := ((halarm.append (hlit " " (by simp))).append (erases_location d.location)).append
    (hlit ": " (by simp))
  rw [← header_plain]
  exact ((hplace.append hstyle.strong).append (.of_notMem hmessage)).append hstyle.stop

theorem erases_gutter : Erases d.gutter d.gutter :=
  ((erases_spaces _).append (erases_nat d.location.line)).append (.of_notMem (by decide))

theorem erases_caret (hstyle : style.Invisible) (line : List Char) :
    Erases (d.caret style line) (d.caret .plain line) :=
  (((erases_spaces _).append hstyle.pointer).append (.of_notMem (by decide))).append hstyle.stop

theorem erases_displayLines (hstyle : style.Invisible) {source : Option String}
    (hmessage : escape ∉ d.message.toList)
    (hlines : ∀ text ∈ source, ∀ line ∈ sourceLines text.toList, escape ∉ line) :
    List.Forall₂ Erases (d.displayLines style source) (d.displayLines .plain source) := by
  rw [displayLines_plain, displayLines]
  cases hline : source.bind d.sourceLine? with
  | none => exact .cons (erases_header hstyle hmessage) .nil
  | some line =>
    obtain ⟨text, htext, hat⟩ := Option.bind_eq_some_iff.mp hline
    have hclean : escape ∉ (String.ofList line).toList := by
      rw [String.toList_ofList]
      exact hlines text htext line (List.mem_of_getElem? hat)
    exact .cons (erases_header hstyle hmessage) <|
      .cons (erases_gutter.append (.of_notMem hclean)) <| .cons (erases_caret hstyle line) .nil

end Diagnostic

theorem erases_displayAll {style : Style} (hstyle : style.Invisible) {source : Option String}
    {ds : List Diagnostic} (hmessages : ∀ d ∈ ds, escape ∉ d.message.toList)
    (hlines : ∀ text ∈ source, ∀ line ∈ sourceLines text.toList, escape ∉ line) :
    Erases (displayAll style source ds) (displayAll .plain source ds) := by
  have hlines' : List.Forall₂ Erases (ds.flatMap (Diagnostic.displayLines style source))
      (ds.flatMap (Diagnostic.displayLines .plain source)) := by
    induction ds with
    | nil => exact .nil
    | cons d ds ih =>
      obtain ⟨hmessage, hmessages⟩ := List.forall_mem_cons.mp hmessages
      rw [List.flatMap_cons, List.flatMap_cons]
      exact List.rel_append (Diagnostic.erases_displayLines hstyle hmessage hlines) (ih hmessages)
  apply Erases.join
  rw [List.forall₂_map_left_iff, List.forall₂_map_right_iff]
  exact hlines'.imp fun _ _ h => h.append (.of_notMem (by decide))

/-- With colors, diagnostics are shown as without them, but for commands to the terminal. Without
them the header of each is its text (`Diagnostic.header_plain`). -/
theorem eraseCommands_displayAll {style : Style} (hstyle : style ∈ [.colored, .colorless])
    {source : Option String} {ds : List Diagnostic}
    (hmessages : ∀ d ∈ ds, escape ∉ d.message.toList)
    (hlines : ∀ text ∈ source, ∀ line ∈ sourceLines text.toList, escape ∉ line) :
    eraseCommands (displayAll style source ds).toList = (displayAll .plain source ds).toList := by
  have hinvisible : style.Invisible := by
    rcases List.mem_pair.mp hstyle with rfl | rfl
    · exact Style.invisible_colored
    · exact Style.invisible_colorless
  have herases := erases_displayAll hinvisible hmessages hlines []
  rwa [eraseCommands_nil, List.append_nil, List.append_nil] at herases

/-- Brackets, digits, semicolons and an `m` are kept where no escape stands before them. -/
theorem eraseCommands_displayAll_brackets :
    let d : Diagnostic := ⟨.parser, ⟨1, 40⟩, "[1m\n;38m"⟩
    eraseCommands (displayAll .colored (some "[0m x") [d]).toList =
      "parser: error: 1:40: [1m\n;38m\n   1 | [0m x\n            ^\n".toList := by
  intro d
  have hmessages : ∀ d' ∈ [d], escape ∉ d'.message.toList := by decide
  have hlines : ∀ text ∈ some "[0m x", ∀ line ∈ sourceLines text.toList, escape ∉ line := by
    decide
  rw [eraseCommands_displayAll (by decide) hmessages hlines]
  decide +kernel

end BraceLang
