import DiceNotation.Text.Span

/-!
# Tokens

The tokens of a text: longest runs of digits, longest runs of prose, and the
marks `d`, `+` and `b` one by one. Every character belongs to exactly one
token, so the token texts in order are the text (`lex_texts`).
-/

namespace DiceNotation

/-- What a character means to dice notation. -/
inductive Kind where
  | digits
  | die
  | plus
  | brutal
  | prose
deriving DecidableEq, Repr

namespace Kind

def ofChar (letter : Char) : Kind :=
  if letter.isDigit then digits
  else if letter = 'd' then die
  else if letter = '+' then plus
  else if letter = 'b' then brutal
  else prose

/-- Neighbouring characters of this kind form one token. -/
def IsRun (kind : Kind) : Prop :=
  kind = digits ∨ kind = prose

instance (kind : Kind) : Decidable kind.IsRun :=
  inferInstanceAs (Decidable (kind = digits ∨ kind = prose))

/-- A run of this kind ends before `rest`. -/
def EndsBefore (kind : Kind) (rest : Text) : Prop :=
  ∀ letter ∈ rest.head?, ofChar letter ≠ kind

/-- The longest run of a kind at the front of a text, empty or not. -/
theorem exists_run_append (kind : Kind) (text : Text) :
    ∃ front rest : Text,
      text = front ++ rest ∧
        (∀ letter ∈ front, ofChar letter = kind) ∧
        kind.EndsBefore rest := by
  refine
    ⟨text.takeWhile (ofChar · = kind), text.dropWhile (ofChar · = kind),
      List.takeWhile_append_dropWhile.symm, ?_, ?_⟩
  · intro letter member
    have kept := List.all_eq_true.mp List.all_takeWhile letter member
    exact of_decide_eq_true kept
  · intro letter member same
    have other := List.head?_dropWhile_not (ofChar · = kind) text
    rw [Option.mem_def.mp member] at other
    simp [same] at other

theorem ofChar_eq_digits_iff {letter : Char} :
    ofChar letter = digits ↔ letter.isDigit = true := by
  grind [ofChar]

theorem ofChar_eq_prose_iff {letter : Char} :
    ofChar letter = prose ↔
      letter.isDigit = false ∧ letter ≠ 'd' ∧ letter ≠ '+' ∧
        letter ≠ 'b' := by
  grind [ofChar]

/-- The character that a mark consists of. -/
def sign? : Kind → Option Char
  | die => some 'd'
  | plus => some '+'
  | brutal => some 'b'
  | digits => none
  | prose => none

theorem ofChar_of_sign?
    {mark : Kind} {sign : Char} (written : mark.sign? = some sign) :
    ofChar sign = mark := by
  cases mark with
  | digits => contradiction
  | prose => contradiction
  | die =>
      injection written with equality
      subst equality
      rfl
  | plus =>
      injection written with equality
      subst equality
      rfl
  | brutal =>
      injection written with equality
      subst equality
      rfl

theorem ofChar_eq_iff_of_sign?
    {mark : Kind} {sign letter : Char} (written : mark.sign? = some sign) :
    ofChar letter = mark ↔ letter = sign := by
  constructor
  · intro same
    subst same
    grind [ofChar, sign?]
  · intro same
    rw [same, ofChar_of_sign? written]

theorem ofChar_eq_die_iff {letter : Char} :
    ofChar letter = die ↔ letter = 'd' :=
  ofChar_eq_iff_of_sign? rfl

theorem not_isRun_of_sign?
    {mark : Kind} {sign : Char} (written : mark.sign? = some sign) :
    ¬ mark.IsRun := by
  cases mark with
  | digits => contradiction
  | prose => contradiction
  | die => simp [IsRun]
  | plus => simp [IsRun]
  | brutal => simp [IsRun]

end Kind

/-- A piece of a text that begins at byte `start`. -/
structure Token where
  kind : Kind
  start : Nat
  text : Text
deriving DecidableEq, Repr

namespace Token

/-- The byte after the last one. -/
def stop (token : Token) : Nat :=
  token.start + token.text.byteSize

def span (token : Token) : Span := ⟨token.start, token.stop⟩

/-- Puts the character at byte `start` before the tokens that follow it: into
the first of them if both belong to one run. -/
def attach (letter : Char) (start : Nat) : List Token → List Token
  | [] => [⟨Kind.ofChar letter, start, [letter]⟩]
  | next :: others =>
      if next.kind = Kind.ofChar letter ∧ next.kind.IsRun then
        ⟨next.kind, start, letter :: next.text⟩ :: others
      else
        ⟨Kind.ofChar letter, start, [letter]⟩ :: next :: others

/-- The tokens of a text that begins at byte `start`. -/
def lexFrom (start : Nat) : Text → List Token
  | [] => []
  | letter :: rest =>
      attach letter start (lexFrom (start + letter.utf8Size) rest)

def lex (text : Text) : List Token := lexFrom 0 text

theorem attach_texts (letter : Char) (start : Nat) (tokens : List Token) :
    (attach letter start tokens).flatMap text =
      letter :: tokens.flatMap text := by
  cases tokens with
  | nil => rfl
  | cons next others =>
      rw [attach]
      split <;> simp

theorem lexFrom_texts (start : Nat) (source : Text) :
    (lexFrom start source).flatMap text = source := by
  induction source generalizing start with
  | nil => rfl
  | cons letter rest inductionHypothesis =>
      rw [lexFrom, attach_texts, inductionHypothesis]

/-- The texts of the tokens, put together, are the text. -/
theorem lex_texts (source : Text) : (lex source).flatMap text = source :=
  lexFrom_texts 0 source

theorem head?_attach_kind
    (letter : Char) (start : Nat) (tokens : List Token) :
    (attach letter start tokens).head?.map kind =
      some (Kind.ofChar letter) := by
  cases tokens with
  | nil => rfl
  | cons next others =>
      rw [attach]
      split
      · next same => simp [same.1]
      · rfl

theorem head?_lexFrom_kind (start : Nat) (source : Text) :
    (lexFrom start source).head?.map kind =
      source.head?.map Kind.ofChar := by
  cases source with
  | nil => rfl
  | cons letter rest => exact head?_attach_kind letter start _

theorem lexFrom_single
    {letter : Char} {rest : Text} (start : Nat)
    (alone :
      (Kind.ofChar letter).IsRun → (Kind.ofChar letter).EndsBefore rest) :
    lexFrom start (letter :: rest) =
      ⟨Kind.ofChar letter, start, [letter]⟩ ::
        lexFrom (start + letter.utf8Size) rest := by
  have heads := head?_lexFrom_kind (start + letter.utf8Size) rest
  rw [lexFrom]
  cases tokens : lexFrom (start + letter.utf8Size) rest with
  | nil => rfl
  | cons next others =>
      rw [tokens] at heads
      rw [attach, if_neg]
      intro joined
      obtain ⟨same, run⟩ := joined
      obtain ⟨first, member, firstKind⟩ :=
        Option.map_eq_some_iff.mp heads.symm
      exact alone (same ▸ run) first member (firstKind.trans same)

/-- A mark is a token of its own, whatever follows it. -/
theorem lexFrom_sign
    {mark : Kind} {sign : Char} (start : Nat) (rest : Text)
    (written : mark.sign? = some sign) :
    lexFrom start (sign :: rest) =
      ⟨mark, start, [sign]⟩ :: lexFrom (start + sign.utf8Size) rest := by
  have kind := Kind.ofChar_of_sign? written
  rw [lexFrom_single start, kind]
  intro run
  exact absurd (kind ▸ run) (Kind.not_isRun_of_sign? written)

/-- A run is one token if it ends before the rest. -/
theorem lexFrom_run
    {kind : Kind} {front rest : Text} (start : Nat) (run : kind.IsRun)
    (uniform : ∀ letter ∈ front, Kind.ofChar letter = kind)
    (nonempty : front ≠ []) (ends : kind.EndsBefore rest) :
    lexFrom start (front ++ rest) =
      ⟨kind, start, front⟩ :: lexFrom (start + front.byteSize) rest := by
  induction front generalizing start with
  | nil => contradiction
  | cons letter later inductionHypothesis =>
      have letterKind := uniform letter List.mem_cons_self
      cases later with
      | nil =>
          rw [List.singleton_append, lexFrom_single start, letterKind]
          · rfl
          · exact fun _ => letterKind ▸ ends
      | cons second others =>
          have laterTokens :=
            inductionHypothesis (start + letter.utf8Size)
              (fun later member =>
                uniform later (List.mem_cons_of_mem letter member))
              (List.cons_ne_nil second others)
          rw [List.cons_append, lexFrom, laterTokens, attach,
            if_pos ⟨letterKind.symm, run⟩, Text.byteSize_cons letter,
            Nat.add_assoc]

end Token

end DiceNotation
