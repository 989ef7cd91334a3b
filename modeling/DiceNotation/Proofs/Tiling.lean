import DiceNotation.Proofs.Barriers
import DiceNotation.Proofs.Boundaries
import Mathlib.Data.List.Chain

/-!
# Tokens tile the text

What a lexer does that takes the longest front of the text which a token rule
accepts is a relation of its own (`Lexes`). It has room for errors, but there
are none, since every text that is left has such a front
(`Kind.exists_longest`). The tokens are what is taken in this way, front after
front (`Token.lexFrom_of_longest`). So they cover the text without a gap, and
two runs of the same kind never meet (`lex_tiles`).
-/

namespace DiceNotation

/-! ## Token rules -/

namespace Kind

/-- The token rules: the texts that a token of each kind may have. -/
def Spells : Kind → Text → Prop
  | digits, text => text ≠ [] ∧ text.AllDigits
  | die, text => text = ['d']
  | plus, text => text = ['+']
  | brutal, text => text = ['b']
  | prose, text => text ≠ [] ∧ ∀ letter ∈ text, Barrier letter

/-- No rule accepts more of the text than `front`, which has `rest` behind
it. -/
structure Longest (kind : Kind) (front rest : Text) : Prop where
  spells : kind.Spells front
  longest :
    ∀ (other : Kind) (longer : Text), longer <+: front ++ rest →
      other.Spells longer → longer.length ≤ front.length

variable {kind : Kind} {front rest text : Text} {sign : Char}

theorem isRun_or_exists_sign? (kind : Kind) :
    kind.IsRun ∨ ∃ sign, kind.sign? = some sign := by
  cases kind with
  | digits => exact Or.inl (Or.inl rfl)
  | prose => exact Or.inl (Or.inr rfl)
  | die => exact Or.inr ⟨'d', rfl⟩
  | plus => exact Or.inr ⟨'+', rfl⟩
  | brutal => exact Or.inr ⟨'b', rfl⟩

theorem spells_iff_of_isRun (run : kind.IsRun) :
    kind.Spells text ↔
      text ≠ [] ∧ ∀ letter ∈ text, ofChar letter = kind := by
  rcases run with rfl | rfl
  · rw [Spells, Text.allDigits_iff_ofChar]
  · simp only [Spells, ofChar_eq_prose_iff, Barrier]

theorem spells_iff_of_sign? (written : kind.sign? = some sign) :
    kind.Spells text ↔ text = [sign] := by
  cases kind with
  | digits => contradiction
  | prose => contradiction
  | die => cases written; exact Iff.rfl
  | plus => cases written; exact Iff.rfl
  | brutal => cases written; exact Iff.rfl

theorem Spells.uniform (spells : kind.Spells text) :
    text ≠ [] ∧ ∀ letter ∈ text, ofChar letter = kind := by
  rcases kind.isRun_or_exists_sign? with run | ⟨sign, written⟩
  · exact (spells_iff_of_isRun run).mp spells
  · rw [(spells_iff_of_sign? written).mp spells]
    exact
      ⟨List.cons_ne_nil sign [],
        List.forall_mem_singleton.mpr (ofChar_of_sign? written)⟩

/-- The first character decides which rule applies. -/
theorem Spells.eq_of_isPrefix
    {letter : Char} (spells : kind.Spells front)
    (begins : front <+: letter :: rest) : kind = ofChar letter := by
  obtain ⟨nonempty, uniform⟩ := spells.uniform
  cases front with
  | nil => contradiction
  | cons first others =>
      have same := (List.cons_prefix_cons.mp begins).1
      exact same ▸ (uniform first List.mem_cons_self).symm

/-! ## Longest fronts -/

theorem longest_of_sign?
    (written : kind.sign? = some sign) (rest : Text) :
    kind.Longest [sign] rest where
  spells := (spells_iff_of_sign? written).mpr rfl
  longest := by
    intro other longer begins spells
    have same : other = kind :=
      (spells.eq_of_isPrefix begins).trans (ofChar_of_sign? written)
    rw [same, spells_iff_of_sign? written] at spells
    exact Nat.le_of_eq (congrArg List.length spells)

theorem longest_of_run
    (run : kind.IsRun) (nonempty : front ≠ [])
    (uniform : ∀ letter ∈ front, ofChar letter = kind)
    (ends : kind.EndsBefore rest) : kind.Longest front rest where
  spells := (spells_iff_of_isRun run).mpr ⟨nonempty, uniform⟩
  longest := by
    intro other longer begins spells
    by_contra more
    -- A longer token would take in the character behind the run.
    obtain ⟨extra, whole⟩ :=
      List.prefix_of_prefix_length_le (List.prefix_append front rest)
        begins (Nat.le_of_not_le more)
    rw [← whole, List.prefix_append_right_inj] at begins
    rw [← whole] at spells more
    have same : other = kind := by
      cases front with
      | nil => contradiction
      | cons first others =>
          have first := spells.uniform.2 first List.mem_cons_self
          exact first.symm.trans (uniform _ List.mem_cons_self)
    cases extra with
    | nil =>
        have nothingMore := congrArg List.length (List.append_nil front)
        exact more (Nat.le_of_eq nothingMore)
    | cons letter later =>
        have member : letter ∈ rest.head? := by
          obtain ⟨behind, split⟩ := begins
          rw [← split]
          rfl
        apply ends letter member
        rw [← same]
        exact
          spells.uniform.2 letter
            (List.mem_append_right front List.mem_cons_self)

/-- A run is not cut short. -/
theorem Longest.endsBefore
    (longest : kind.Longest front rest) (run : kind.IsRun) :
    kind.EndsBefore rest := by
  obtain ⟨nonempty, uniform⟩ := longest.spells.uniform
  intro letter member same
  obtain ⟨behind, split⟩ := List.head?_eq_some_iff.mp member
  have begins : front ++ [letter] <+: front ++ rest := by
    rw [split, List.prefix_append_right_inj]
    exact ⟨behind, rfl⟩
  have spells : kind.Spells (front ++ [letter]) := by
    rw [spells_iff_of_isRun run, List.forall_mem_append]
    exact
      ⟨List.append_ne_nil_of_left_ne_nil nonempty _, uniform,
        List.forall_mem_singleton.mpr same⟩
  have atMost := longest.longest kind _ begins spells
  rw [List.length_append, List.length_singleton] at atMost
  omega

/-- Some rule accepts a front of every text. -/
theorem exists_longest (nonempty : text ≠ []) :
    ∃ kind front rest,
      text = front ++ rest ∧ Longest kind front rest := by
  cases text with
  | nil => contradiction
  | cons letter later =>
      rcases (ofChar letter).isRun_or_exists_sign? with
        run | ⟨sign, written⟩
      · obtain ⟨front, rest, whole, uniform, ends⟩ :=
          exists_run_append (ofChar letter) (letter :: later)
        have nonemptyFront : front ≠ [] := by
          intro nothing
          rw [nothing, List.nil_append] at whole
          rw [← whole] at ends
          exact ends letter rfl rfl
        exact
          ⟨_, front, rest, whole,
            longest_of_run run nonemptyFront uniform ends⟩
      · have same : letter = sign :=
          (ofChar_eq_iff_of_sign? written).mp rfl
        exact
          ⟨_, [sign], later, by rw [same]; rfl,
            longest_of_sign? written later⟩

end Kind

/-- A text can be taken apart by its longest tokens. -/
theorem Text.longest_induction
    {motive : Nat → Text → Prop} (nil : ∀ start, motive start [])
    (append :
      ∀ start kind front rest, Kind.Longest kind front rest →
        motive (start + front.byteSize) rest →
        motive start (front ++ rest))
    (start : Nat) (text : Text) : motive start text := by
  induction size : text.length using Nat.strongRecOn
    generalizing start text with
  | ind length inductionHypothesis =>
      by_cases nothing : text = []
      · rw [nothing]
        exact nil start
      · obtain ⟨kind, front, rest, whole, longest⟩ :=
          Kind.exists_longest nothing
        have positive :=
          List.length_pos_iff.mpr longest.spells.uniform.1
        have shorter : rest.length < length := by
          rw [← size, whole, List.length_append]
          omega
        rw [whole]
        apply append start kind front rest longest
        exact inductionHypothesis rest.length shorter _ rest rfl

/-! ## Lexing by longest fronts -/

/-- What a lexer yields that always takes the longest front of the text which
a rule accepts, and a character as an error where no rule accepts any: the
kinds, none of them for an error, and the spans. -/
inductive Lexes : Nat → Text → List (Option Kind × Span) → Prop
  | nil (start : Nat) : Lexes start [] []
  | token {start : Nat} {kind : Kind} {front rest : Text}
      {lexemes : List (Option Kind × Span)}
      (longest : kind.Longest front rest)
      (later : Lexes (start + front.byteSize) rest lexemes) :
      Lexes start (front ++ rest)
        ((some kind, ⟨start, start + front.byteSize⟩) :: lexemes)
  | error {start : Nat} {letter : Char} {rest : Text}
      {lexemes : List (Option Kind × Span)}
      (refused :
        ∀ (kind : Kind) (front : Text), front <+: letter :: rest →
          ¬ kind.Spells front)
      (later : Lexes (start + letter.utf8Size) rest lexemes) :
      Lexes start (letter :: rest)
        ((none, ⟨start, start + letter.utf8Size⟩) :: lexemes)

namespace Token

theorem lexFrom_of_longest
    {kind : Kind} {front rest : Text} (longest : kind.Longest front rest)
    (start : Nat) :
    lexFrom start (front ++ rest) =
      ⟨kind, start, front⟩ :: lexFrom (start + front.byteSize) rest := by
  rcases kind.isRun_or_exists_sign? with run | ⟨sign, written⟩
  · obtain ⟨nonempty, uniform⟩ := longest.spells.uniform
    exact lexFrom_run start run uniform nonempty (longest.endsBefore run)
  · rw [(Kind.spells_iff_of_sign? written).mp longest.spells]
    exact lexFrom_sign start rest written

/-- The kind and the span of a token. -/
def lexeme (token : Token) : Option Kind × Span :=
  (some token.kind, token.span)

theorem lexes_iff {start : Nat} {source : Text}
    {lexemes : List (Option Kind × Span)} :
    Lexes start source lexemes ↔
      lexemes = (lexFrom start source).map lexeme := by
  constructor
  · intro lexed
    induction lexed with
    | nil start => rfl
    | token longest later inductionHypothesis =>
        rw [lexFrom_of_longest longest, List.map_cons,
          inductionHypothesis]
        rfl
    | @error start letter rest lexemes refused later _ =>
        obtain ⟨kind, front, behind, whole, longest⟩ :=
          Kind.exists_longest (List.cons_ne_nil letter rest)
        exact
          absurd longest.spells
            (refused kind front ⟨behind, whole.symm⟩)
  · intro same
    subst same
    induction start, source using Text.longest_induction with
    | nil start => exact Lexes.nil start
    | append start kind front rest longest inductionHypothesis =>
        rw [lexFrom_of_longest longest]
        exact Lexes.token longest inductionHypothesis

/-! ## Tokens in their places -/

variable {token : Token} {start : Nat} {source : Text}

theorem spells_of_mem_lexFrom (member : token ∈ lexFrom start source) :
    token.kind.Spells token.text := by
  induction start, source using Text.longest_induction with
  | nil start => contradiction
  | append start kind front rest longest inductionHypothesis =>
      rw [lexFrom_of_longest longest] at member
      rcases List.mem_cons.mp member with first | later
      · rw [first]
        exact longest.spells
      · exact inductionHypothesis later

theorem exists_append_of_mem_lexFrom
    (member : token ∈ lexFrom start source) :
    ∃ before after,
      source = before ++ (token.text ++ after) ∧
        token.start = start + before.byteSize := by
  induction start, source using Text.longest_induction with
  | nil start => contradiction
  | append start kind front rest longest inductionHypothesis =>
      rw [lexFrom_of_longest longest] at member
      rcases List.mem_cons.mp member with first | later
      · rw [first]
        exact ⟨[], rest, rfl, rfl⟩
      · obtain ⟨before, after, whole, position⟩ :=
          inductionHypothesis later
        refine ⟨front ++ before, after, ?_, ?_⟩
        · rw [whole, List.append_assoc]
        · rw [position, Text.byteSize_append, Nat.add_assoc]

theorem fits_and_slice_of_mem_lex (member : token ∈ lex source) :
    source.Fits token.span ∧ source.slice token.span = token.text := by
  obtain ⟨before, after, whole, position⟩ :=
    exists_append_of_mem_lexFrom member
  rw [Nat.zero_add] at position
  rw [span, stop, position, whole]
  exact
    ⟨Text.fits_append before token.text after,
      Text.slice_append before token.text after⟩

/-- No run is followed by another of its kind. -/
theorem isChain_lexFrom (start : Nat) (source : Text) :
    (lexFrom start source).IsChain fun token next =>
      token.kind.IsRun → next.kind ≠ token.kind := by
  induction start, source using Text.longest_induction with
  | nil start => exact List.IsChain.nil
  | append start kind front rest longest inductionHypothesis =>
      rw [lexFrom_of_longest longest, List.isChain_cons]
      refine ⟨?_, inductionHypothesis⟩
      intro next member run same
      have heads := head?_lexFrom_kind (start + front.byteSize) rest
      rw [Option.mem_def.mp member, Option.map_some] at heads
      obtain ⟨letter, first, letterKind⟩ :=
        Option.map_eq_some_iff.mp heads.symm
      exact
        longest.endsBefore run letter first (letterKind.trans same)

end Token

/-- The spans follow one another without a gap from byte `start` to byte
`stop`. -/
def Span.Consecutive : Nat → List Span → Nat → Prop
  | start, [], stop => start = stop
  | start, span :: spans, stop =>
      span.start = start ∧ Consecutive span.stop spans stop

theorem Token.consecutive_lexFrom (start : Nat) (source : Text) :
    Span.Consecutive start ((lexFrom start source).map span)
      (start + source.byteSize) := by
  induction start, source using Text.longest_induction with
  | nil start => exact rfl
  | append start kind front rest longest inductionHypothesis =>
      rw [lexFrom_of_longest longest, Text.byteSize_append,
        ← Nat.add_assoc]
      exact ⟨rfl, inductionHypothesis⟩

/-- Taking the longest front that a rule accepts yields the tokens of the text
and no error. The texts of the tokens in order are the text. Their spans
follow one another from its first byte to its last, are not empty and break no
character. Each token has the kind that its text tells, and no two neighbours
are both digits or both prose. -/
theorem lex_tiles (source : Text) :
    (∀ lexemes,
      Lexes 0 source lexemes ↔
        lexemes =
          (Token.lex source).map fun token =>
            (some token.kind, token.span)) ∧
      (Token.lex source).flatMap Token.text = source ∧
      Span.Consecutive 0 ((Token.lex source).map Token.span)
        source.byteSize ∧
      (∀ token ∈ Token.lex source,
        token.text ≠ [] ∧ token.span.start < token.span.stop ∧
          source.Fits token.span ∧
          source.slice token.span = token.text ∧
          token.kind.Spells token.text) ∧
      (Token.lex source).IsChain fun token next =>
        ¬ (token.kind = .digits ∧ next.kind = .digits) ∧
          ¬ (token.kind = .prose ∧ next.kind = .prose) := by
  refine
    ⟨fun lexemes => Token.lexes_iff, Token.lex_texts source, ?_, ?_, ?_⟩
  · have consecutive := Token.consecutive_lexFrom 0 source
    rw [Nat.zero_add] at consecutive
    exact consecutive
  · intro token member
    have spells := Token.spells_of_mem_lexFrom member
    obtain ⟨fits, slice⟩ := Token.fits_and_slice_of_mem_lex member
    have nonempty := spells.uniform.1
    have positive := Text.byteSize_pos nonempty
    exact
      ⟨nonempty, Nat.lt_add_of_pos_right positive, fits, slice, spells⟩
  · apply (Token.isChain_lexFrom 0 source).imp
    intro token next apart
    constructor
    · intro both
      exact apart (Or.inl both.1) (both.2.trans both.1.symm)
    · intro both
      exact apart (Or.inr both.1) (both.2.trans both.1.symm)

end DiceNotation
