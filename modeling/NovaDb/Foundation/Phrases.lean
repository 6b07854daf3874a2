import Mathlib

namespace NovaDb
namespace Foundation

/-!
# Phrases and predictive parsers

A predictive parser reads a word from the front of its input and stops in front
of a token that cannot extend the word.  The phrases of a syntactic category
record all three: the word, the value it stands for, and the tokens that would
extend it.  With the extending tokens part of the category, soundness and
completeness of a parser are converse statements about one relation, and both
are kept by sequencing.

The input always has a token behind the word, the end marker if nothing else.
How a state holds its input is left open: `reads` relates the two.
-/

/-! ## Parsing steps -/

/-- What a parsing step ends with.  A panic is an access outside the input, and
`outOfFuel` is the answer of a recursion that was cut off. -/
inductive Parsed (ε σ α : Type) where
  | ok (value : α) (next : σ)
  | error (failure : ε)
  | panic
  | outOfFuel

def Parsed.isOk {ε σ α : Type} : Parsed ε σ α -> Bool
  | .ok _ _ => true
  | _ => false

/-- A parsing step: it reads and moves a state. -/
def ParseM (ε σ α : Type) : Type :=
  σ -> Parsed ε σ α

namespace ParseM

variable {ε σ α β : Type}

instance : Monad (ParseM ε σ) where
  pure value := fun state => .ok value state
  bind first next := fun state =>
    match first state with
    | .ok value rest => next value rest
    | .error failure => .error failure
    | .panic => .panic
    | .outOfFuel => .outOfFuel

def fail (failure : ε) : ParseM ε σ α :=
  fun _ => .error failure

def exhausted : ParseM ε σ α :=
  fun _ => .outOfFuel

theorem pure_apply (value : α) (state : σ) :
    (pure value : ParseM ε σ α) state = .ok value state :=
  rfl

theorem bind_assoc {γ : Type} (first : ParseM ε σ α) (second : α -> ParseM ε σ β)
    (third : β -> ParseM ε σ γ) :
    (first >>= second) >>= third = first >>= fun value => second value >>= third := by
  funext state
  simp only [bind]
  cases first state <;> rfl

theorem bind_of_ok {first : ParseM ε σ α} {next : α -> ParseM ε σ β} {state rest : σ} {value : α}
    (done : first state = .ok value rest) : (first >>= next) state = next value rest := by
  simp only [bind, done]

theorem bind_of_error {first : ParseM ε σ α} {next : α -> ParseM ε σ β} {state : σ} {failure : ε}
    (failed : first state = .error failure) : (first >>= next) state = .error failure := by
  simp only [bind, failed]

theorem ok_of_bind {first : ParseM ε σ α} {next : α -> ParseM ε σ β} {state final : σ}
    {result : β} (done : (first >>= next) state = .ok result final) :
    Exists fun value => Exists fun rest =>
      first state = .ok value rest ∧ next value rest = .ok result final := by
  cases outcome : first state with
  | ok value rest => exact ⟨value, rest, rfl, by rwa [bind_of_ok outcome] at done⟩
  | error failure => simp only [bind, outcome, reduceCtorEq] at done
  | panic => simp only [bind, outcome, reduceCtorEq] at done
  | outOfFuel => simp only [bind, outcome, reduceCtorEq] at done

end ParseM

/-! ## Phrases -/

/-- The phrases of a syntactic category: a word, its value and the tokens that
would extend the word. -/
abbrev Phrases (τ α : Type) : Type :=
  List τ -> α -> List τ -> Prop

/-- The tokens that extend two adjacent words: an empty second word leaves the
first one open. -/
def carry {τ : Type} (second before after : List τ) : List τ :=
  match second with
  | [] => before ++ after
  | _ :: _ => after

@[simp]
theorem carry_nil {τ : Type} (before after : List τ) :
    carry [] before after = before ++ after :=
  rfl

theorem carry_closed {τ : Type} (second after : List τ) : carry second [] after = after := by
  cases second <;> rfl

namespace Phrases

variable {τ α β : Type}

/-- The empty word, which stands for a given value. -/
def nothing (value : α) : Phrases τ α :=
  fun word result extending => word = [] ∧ result = value ∧ extending = []

/-- No phrase at all. -/
def never : Phrases τ α :=
  fun _ _ _ => False

/-- A fixed token in front of a phrase. -/
def after (token : τ) (phrases : Phrases τ α) : Phrases τ α :=
  fun word value extending =>
    Exists fun rest => word = token :: rest ∧ phrases rest value extending

/-- A token that a partial function reads, in front of a phrase that depends on
what was read. -/
def reading (pick : τ -> Option α) (phrases : α -> Phrases τ β) : Phrases τ β :=
  fun word value extending =>
    Exists fun token => Exists fun rest => Exists fun read =>
      word = token :: rest ∧ pick token = some read ∧ phrases read rest value extending

/-- A phrase of the first category if the word starts with the token, and else
one of the second, which the token would extend if it is empty. -/
def choose (token : τ) (present absent : Phrases τ α) : Phrases τ α :=
  fun word value extending =>
    after token present word value extending ∨
      Exists fun inner => absent word value inner ∧ word.head? ≠ some token ∧
        extending = carry word [token] inner

/-- Two phrases in a row, the second of a category that depends on the first
value.  It must not start with a token that extends the first. -/
def seq (first : Phrases τ α) (second : α -> Phrases τ β) : Phrases τ β :=
  fun word result extending =>
    Exists fun left => Exists fun right => Exists fun value => Exists fun before =>
      Exists fun behind =>
        word = left ++ right ∧ first left value before ∧ second value right result behind ∧
          (forall token, right.head? = some token -> token ∉ before) ∧
            extending = carry right before behind

theorem choose_present {token : τ} {present absent : Phrases τ α} {word : List τ} {value : α}
    {extending : List τ} (phrase : present word value extending) :
    choose token present absent (token :: word) value extending :=
  Or.inl ⟨word, rfl, phrase⟩

theorem choose_absent {token first : τ} {present absent : Phrases τ α} {word : List τ}
    {value : α} {extending : List τ} (other : first ≠ token)
    (phrase : absent (first :: word) value extending) :
    choose token present absent (first :: word) value extending :=
  Or.inr ⟨extending, phrase, fun same => other (Option.some.inj same), rfl⟩

theorem choose_nil {token : τ} {present absent : Phrases τ α} {value : α}
    {extending : List τ} (phrase : absent [] value extending) :
    choose token present absent [] value (token :: extending) :=
  Or.inr ⟨extending, phrase, nofun, rfl⟩

/-- A phrase whose value is transformed. -/
theorem seq_nothing {phrases : Phrases τ α} {change : α -> β} {word extending : List τ}
    {result : β} :
    seq phrases (fun value => nothing (change value)) word result extending <->
      Exists fun value => phrases word value extending ∧ result = change value := by
  constructor
  · rintro ⟨left, right, value, before, behind, rfl, phrase, ⟨rfl, rfl, rfl⟩, _, rfl⟩
    rw [List.append_nil, carry_nil, List.append_nil]
    exact ⟨value, phrase, rfl⟩
  · rintro ⟨value, phrase, rfl⟩
    refine ⟨word, [], value, extending, [], (List.append_nil word).symm, phrase, ⟨rfl, rfl, rfl⟩,
      nofun, ?_⟩
    rw [carry_nil, List.append_nil]

/-- A phrase in front of a fixed token. -/
theorem seq_after {phrases : Phrases τ α} {token : τ} {second : α -> Phrases τ β}
    {word extending : List τ} {result : β} :
    seq phrases (fun value => after token (second value)) word result extending <->
      Exists fun left => Exists fun right => Exists fun value => Exists fun before =>
        word = left ++ token :: right ∧ phrases left value before ∧ token ∉ before ∧
          second value right result extending := by
  constructor
  · rintro ⟨left, right, value, before, behind, rfl, phrase, ⟨rest, rfl, tail⟩, clear, rfl⟩
    exact ⟨left, rest, value, before, rfl, phrase, clear token rfl, tail⟩
  · rintro ⟨left, right, value, before, rfl, phrase, clear, tail⟩
    refine ⟨left, token :: right, value, before, extending, rfl, phrase, ⟨right, rfl, tail⟩, ?_,
      rfl⟩
    intro first starts
    rw [← Option.some.inj starts]
    exact clear

/-- A phrase in front of a token that is read. -/
theorem seq_reading {γ : Type} {phrases : Phrases τ α} {pick : τ -> Option γ}
    {second : α -> γ -> Phrases τ β} {word extending : List τ} {result : β} :
    seq phrases (fun value => reading pick (second value)) word result extending <->
      Exists fun left => Exists fun token => Exists fun right => Exists fun value =>
        Exists fun read => Exists fun before =>
          word = left ++ token :: right ∧ phrases left value before ∧ token ∉ before ∧
            pick token = some read ∧ second value read right result extending := by
  constructor
  · rintro ⟨left, right, value, before, behind, rfl, phrase,
      ⟨token, rest, read, rfl, picked, tail⟩, clear, rfl⟩
    exact ⟨left, token, rest, value, read, before, rfl, phrase, clear token rfl, picked, tail⟩
  · rintro ⟨left, token, right, value, read, before, rfl, phrase, clear, picked, tail⟩
    refine ⟨left, token :: right, value, before, extending, rfl, phrase,
      ⟨token, right, read, rfl, picked, tail⟩, ?_, rfl⟩
    intro first starts
    rw [← Option.some.inj starts]
    exact clear

/-- A phrase that a separator may continue. -/
theorem seq_choose {first : Phrases τ α} {token : τ} {lists : α -> Phrases τ α}
    {word extending : List τ} {result : α} :
    seq first (fun more => choose token (lists more) (nothing more)) word result extending <->
      (Exists fun inner => first word result inner ∧ extending = inner ++ [token]) ∨
        Exists fun left => Exists fun right => Exists fun more => Exists fun before =>
          word = left ++ token :: right ∧ first left more before ∧ token ∉ before ∧
            lists more right result extending := by
  constructor
  · rintro ⟨left, right, more, before, behind, rfl, phrase,
      ⟨rest, rfl, tail⟩ | ⟨inner, ⟨rfl, rfl, rfl⟩, _, rfl⟩, clear, rfl⟩
    · exact Or.inr ⟨left, rest, more, before, rfl, phrase, clear token rfl, tail⟩
    · refine Or.inl ⟨before, ?_, rfl⟩
      rw [List.append_nil]
      exact phrase
  · rintro (⟨inner, phrase, rfl⟩ | ⟨left, right, more, before, rfl, phrase, clear, tail⟩)
    · exact ⟨word, [], result, inner, [token], (List.append_nil word).symm, phrase,
        choose_nil ⟨rfl, rfl, rfl⟩, nofun, rfl⟩
    · refine ⟨left, token :: right, more, before, extending, rfl, phrase, choose_present tail, ?_,
        rfl⟩
      intro start starts
      rw [← Option.some.inj starts]
      exact clear

end Phrases

/-! ## Parsers of phrases -/

section Implements

variable {ε σ τ α β : Type} {reads : σ -> List τ -> Prop} {domain : List τ -> Prop}

/-- On the inputs of a domain the parser returns exactly the phrases at the
front of the input that the next token does not extend, leaves the input behind
them, and otherwise reports an error: it neither panics nor runs out of fuel. -/
structure Implements (reads : σ -> List τ -> Prop) (domain : List τ -> Prop)
    (parser : ParseM ε σ α) (phrases : Phrases τ α) : Prop where
  sound : forall {state next : σ} {input : List τ} {value : α},
    reads state input -> domain input -> parser state = .ok value next ->
      Exists fun word => Exists fun token => Exists fun rest => Exists fun extending =>
        input = word ++ token :: rest ∧ reads next (token :: rest) ∧
          phrases word value extending ∧ token ∉ extending
  complete : forall {state : σ} (word : List τ) {rest extending : List τ} {token : τ} {value : α},
    reads state (word ++ token :: rest) -> domain (word ++ token :: rest) ->
      phrases word value extending -> token ∉ extending ->
        Exists fun next => parser state = .ok value next ∧ reads next (token :: rest)
  total : forall {state : σ} {input : List τ}, reads state input -> domain input ->
    (Exists fun value => Exists fun next => parser state = .ok value next) ∨
      Exists fun failure => parser state = .error failure

namespace Implements

variable {parser : ParseM ε σ α} {phrases other : Phrases τ α}

/-- Categories may be exchanged where they agree on the domain. -/
theorem congr (implements : Implements reads domain parser phrases)
    (same : forall {word rest extending : List τ} {token : τ} {value : α},
      domain (word ++ token :: rest) ->
        (phrases word value extending <-> other word value extending)) :
    Implements reads domain parser other where
  sound := by
    intro state next input value holds inside done
    rcases implements.sound holds inside done with
      ⟨word, token, rest, extending, split, left, phrase, stops⟩
    refine ⟨word, token, rest, extending, split, left, ?_, stops⟩
    rw [split] at inside
    exact (same inside).mp phrase
  complete := by
    intro state word rest extending token value holds inside phrase stops
    exact implements.complete word holds inside ((same inside).mpr phrase) stops
  total := implements.total

/-- An input does not start with two closed phrases: what is left behind the one is
left behind the other. -/
theorem unique (implements : Implements reads domain parser phrases)
    {state : σ} {word another rest left extending beyond : List τ} {token last : τ} {value twin : α}
    (holds : reads state (word ++ token :: rest)) (inside : domain (word ++ token :: rest))
    (same : word ++ token :: rest = another ++ last :: left)
    (phrase : phrases word value extending) (stops : token ∉ extending)
    (phraseToo : phrases another twin beyond) (ends : last ∉ beyond) :
    value = twin ∧
      Exists fun next => reads next (token :: rest) ∧ reads next (last :: left) := by
  rcases implements.complete word holds inside phrase stops with ⟨next, done, behind⟩
  rw [same] at holds inside
  rcases implements.complete another holds inside phraseToo ends with ⟨_, again, behindOther⟩
  rw [done] at again
  cases again
  exact ⟨rfl, next, behind, behindOther⟩

/-- A smaller domain. -/
theorem restrict {smaller : List τ -> Prop} (implements : Implements reads domain parser phrases)
    (within : forall {input : List τ}, smaller input -> domain input) :
    Implements reads smaller parser phrases where
  sound holds inside done := implements.sound holds (within inside) done
  complete word _ _ _ _ holds inside phrase stops :=
    implements.complete word holds (within inside) phrase stops
  total holds inside := implements.total holds (within inside)

theorem pure (value : α)
    (behind : forall {state : σ} {input : List τ}, reads state input -> input ≠ []) :
    Implements reads domain (Pure.pure value : ParseM ε σ α) (Phrases.nothing value) where
  sound := by
    intro state next input result holds _ done
    rw [ParseM.pure_apply] at done
    cases done
    cases input with
    | nil => exact absurd rfl (behind holds)
    | cons token rest =>
        exact ⟨[], token, rest, [], rfl, holds, ⟨rfl, rfl, rfl⟩, List.not_mem_nil⟩
  complete := by
    intro state word rest extending token result holds _ phrase _
    rcases phrase with ⟨rfl, rfl, rfl⟩
    exact ⟨state, rfl, holds⟩
  total := fun {state} _ _ _ => Or.inl ⟨value, state, rfl⟩

theorem fail (failure : ε) :
    Implements reads domain (ParseM.fail failure : ParseM ε σ α) Phrases.never where
  sound := fun _ _ done => nomatch done
  complete := fun _ _ _ _ _ _ _ phrase => phrase.elim
  total := fun _ _ => Or.inr ⟨failure, rfl⟩

/-- Sequencing.  The second parser only meets inputs behind a phrase of the
first. -/
theorem bind {next : α -> ParseM ε σ β} {second : α -> Phrases τ β}
    {behind : α -> List τ -> Prop} (first : Implements reads domain parser phrases)
    (within : forall {word rest extending : List τ} {token : τ} {value : α},
      phrases word value extending -> domain (word ++ token :: rest) ->
        behind value (token :: rest))
    (rest : forall value, Implements reads (behind value) (next value) (second value)) :
    Implements reads domain (parser >>= next) (Phrases.seq phrases second) where
  sound := by
    intro state final input result holds inside done
    rcases ParseM.ok_of_bind done with ⟨value, middle, firstDone, secondDone⟩
    rcases first.sound holds inside firstDone with
      ⟨word, token, tail, before, split, left, phrase, stops⟩
    rw [split] at inside
    rcases (rest value).sound left (within phrase inside) secondDone with
      ⟨right, last, remaining, after, splitTail, leftAfter, secondPhrase, secondStops⟩
    refine ⟨word ++ right, last, remaining, carry right before after, ?_, leftAfter,
      ⟨word, right, value, before, after, rfl, phrase, secondPhrase, ?_, rfl⟩, ?_⟩
    · rw [split, splitTail, List.append_assoc]
    · intro start isStart
      cases right with
      | nil => nomatch isStart
      | cons head right =>
          rw [List.cons_append] at splitTail
          rw [List.head?_cons, Option.some.injEq] at isStart
          rw [← isStart, ← (List.cons.inj splitTail).1]
          exact stops
    · cases right with
      | nil =>
          rw [carry_nil, List.mem_append, not_or]
          rw [List.nil_append] at splitTail
          exact ⟨(List.cons.inj splitTail).1 ▸ stops, secondStops⟩
      | cons head right => exact secondStops
  complete := by
    intro state word tail extending token result holds inside phrase stops
    rcases phrase with ⟨left, right, value, before, after, rfl, firstPhrase, secondPhrase,
      clear, rfl⟩
    rw [List.append_assoc] at holds inside
    cases right with
    | nil =>
        rw [carry_nil, List.mem_append, not_or] at stops
        rcases first.complete left holds inside firstPhrase stops.1 with ⟨middle, firstDone, left'⟩
        rcases (rest value).complete [] left' (within firstPhrase inside) secondPhrase
          stops.2 with ⟨final, secondDone, done⟩
        exact ⟨final, (ParseM.bind_of_ok firstDone).trans secondDone, done⟩
    | cons head right =>
        rcases first.complete left holds inside firstPhrase (clear head rfl) with
          ⟨middle, firstDone, left'⟩
        rcases (rest value).complete (head :: right) left' (within firstPhrase inside)
          secondPhrase stops with ⟨final, secondDone, done⟩
        exact ⟨final, (ParseM.bind_of_ok firstDone).trans secondDone, done⟩
  total := by
    intro state input holds inside
    rcases first.total holds inside with ⟨value, middle, firstDone⟩ | ⟨failure, failed⟩
    · rcases first.sound holds inside firstDone with
        ⟨word, token, tail, before, split, left, phrase, _⟩
      rw [split] at inside
      rw [ParseM.bind_of_ok firstDone]
      exact (rest value).total left (within phrase inside)
    · exact Or.inr ⟨failure, ParseM.bind_of_error failed⟩

/-- Parsers may be exchanged where they agree. -/
theorem of_eq {same : ParseM ε σ α} (implements : Implements reads domain same phrases)
    (agrees : forall {state : σ} {input : List τ}, reads state input -> domain input ->
      parser state = same state) :
    Implements reads domain parser phrases where
  sound holds inside done := implements.sound holds inside ((agrees holds inside).symm.trans done)
  complete word _ _ _ _ holds inside phrase stops := by
    rw [agrees holds inside]
    exact implements.complete word holds inside phrase stops
  total holds inside := by
    rw [agrees holds inside]
    exact implements.total holds inside

/-- A step that only looks at the state, and what can be known of the value. -/
theorem inspect {looking : ParseM ε σ α} {next : α -> ParseM ε σ β} {result : Phrases τ β}
    {seen : α -> Prop}
    (looks : forall {state : σ} {input : List τ}, reads state input -> domain input ->
      Exists fun value => looking state = .ok value state ∧ seen value)
    (rest : forall {value}, seen value -> Implements reads domain (next value) result) :
    Implements reads domain (looking >>= next) result where
  sound := by
    intro state final input value holds inside done
    rcases looks holds inside with ⟨found, same, known⟩
    rw [ParseM.bind_of_ok same] at done
    exact (rest known).sound holds inside done
  complete := by
    intro state word tail extending token value holds inside phrase stops
    rcases looks holds inside with ⟨found, same, known⟩
    rw [ParseM.bind_of_ok same]
    exact (rest known).complete word holds inside phrase stops
  total := by
    intro state input holds inside
    rcases looks holds inside with ⟨found, same, known⟩
    rw [ParseM.bind_of_ok same]
    exact (rest known).total holds inside

/-- Inputs are nonempty, so a property may be shown token by token. -/
theorem byNext (nonempty : forall {state : σ} {input : List τ}, reads state input -> input ≠ [])
    (each : forall token,
      Implements reads (fun input => input.head? = some token ∧ domain input) parser phrases) :
    Implements reads domain parser phrases where
  sound := by
    intro state final input value holds inside done
    rcases List.exists_cons_of_ne_nil (nonempty holds) with ⟨token, rest, rfl⟩
    exact (each token).sound holds ⟨rfl, inside⟩ done
  complete := by
    intro state word tail extending token value holds inside phrase stops
    rcases List.exists_cons_of_ne_nil (nonempty holds) with ⟨first, rest, same⟩
    have starts : (word ++ token :: tail).head? = some first := by rw [same, List.head?_cons]
    exact (each first).complete word holds ⟨starts, inside⟩ phrase stops
  total := by
    intro state input holds inside
    rcases List.exists_cons_of_ne_nil (nonempty holds) with ⟨token, rest, rfl⟩
    exact (each token).total holds ⟨rfl, inside⟩

/-- A step that takes the next token where it is known. -/
theorem consume {step : ParseM ε σ α} {next : α -> ParseM ε σ β} {token : τ}
    {result : Phrases τ β} {behind : List τ -> Prop}
    (takes : forall {state : σ} {rest : List τ}, reads state (token :: rest) ->
      Exists fun value => Exists fun middle => step state = .ok value middle ∧ reads middle rest)
    (within : forall {rest : List τ}, domain (token :: rest) -> behind rest)
    (rest : forall value, Implements reads behind (next value) result) :
    Implements reads (fun input => input.head? = some token ∧ domain input) (step >>= next)
      (Phrases.after token result) where
  sound := by
    intro state final input value holds inside done
    rcases List.head?_eq_some_iff.mp inside.1 with ⟨tail, rfl⟩
    rcases takes holds with ⟨taken, middle, same, left⟩
    rw [ParseM.bind_of_ok same] at done
    rcases (rest taken).sound left (within inside.2) done with
      ⟨word, last, remaining, extending, rfl, leftAfter, phrase, stops⟩
    exact ⟨token :: word, last, remaining, extending, rfl, leftAfter, ⟨word, rfl, phrase⟩, stops⟩
  complete := by
    intro state word tail extending last value holds inside phrase stops
    rcases phrase with ⟨inner, rfl, innerPhrase⟩
    rcases takes holds with ⟨taken, middle, same, left⟩
    rw [ParseM.bind_of_ok same]
    exact (rest taken).complete inner left (within inside.2) innerPhrase stops
  total := by
    intro state input holds inside
    rcases List.head?_eq_some_iff.mp inside.1 with ⟨tail, rfl⟩
    rcases takes holds with ⟨taken, middle, same, left⟩
    rw [ParseM.bind_of_ok same]
    exact (rest taken).total left (within inside.2)

/-- A step that takes the next token if it is one of those it reads, and else
fails. -/
theorem read {step : ParseM ε σ α} {next : α -> ParseM ε σ β} {γ : Type}
    {pick : τ -> Option γ} {stands : α -> γ -> Prop} {result : γ -> Phrases τ β}
    {behind : List τ -> Prop}
    (nonempty : forall {state : σ} {input : List τ}, reads state input -> input ≠ [])
    (takes : forall {state : σ} {token : τ} {rest : List τ} {read : γ},
      reads state (token :: rest) -> pick token = some read ->
        Exists fun value => Exists fun middle =>
          step state = .ok value middle ∧ stands value read ∧ reads middle rest)
    (refuses : forall {state : σ} {token : τ} {rest : List τ},
      reads state (token :: rest) -> pick token = none ->
        Exists fun failure => step state = .error failure)
    (within : forall {token : τ} {rest : List τ}, domain (token :: rest) -> behind rest)
    (rest : forall {value : α} {read : γ}, stands value read ->
      Implements reads behind (next value) (result read)) :
    Implements reads domain (step >>= next) (Phrases.reading pick result) := by
  refine byNext nonempty (fun token => ?_)
  cases picked : pick token with
  | none =>
      refine ⟨?_, ?_, ?_⟩
      · intro state final input value holds inside done
        rcases List.head?_eq_some_iff.mp inside.1 with ⟨tail, rfl⟩
        rcases refuses holds picked with ⟨failure, failed⟩
        rw [ParseM.bind_of_error failed] at done
        nomatch done
      · intro state word tail extending last value holds inside phrase stops
        rcases phrase with ⟨first, inner, read, rfl, known, _⟩
        cases inside.1
        rw [picked] at known
        nomatch known
      · intro state input holds inside
        rcases List.head?_eq_some_iff.mp inside.1 with ⟨tail, rfl⟩
        rcases refuses holds picked with ⟨failure, failed⟩
        exact Or.inr ⟨failure, ParseM.bind_of_error failed⟩
  | some read =>
      refine ⟨?_, ?_, ?_⟩
      · intro state final input value holds inside done
        rcases List.head?_eq_some_iff.mp inside.1 with ⟨tail, rfl⟩
        rcases takes holds picked with ⟨taken, middle, same, meant, left⟩
        rw [ParseM.bind_of_ok same] at done
        rcases (rest meant).sound left (within inside.2) done with
          ⟨word, last, remaining, extending, rfl, leftAfter, phrase, stops⟩
        exact ⟨token :: word, last, remaining, extending, rfl, leftAfter,
          ⟨token, word, read, rfl, picked, phrase⟩, stops⟩
      · intro state word tail extending last value holds inside phrase stops
        rcases phrase with ⟨first, inner, found, rfl, known, innerPhrase⟩
        cases inside.1
        rw [picked] at known
        cases known
        rcases takes holds picked with ⟨taken, middle, same, meant, left⟩
        rw [ParseM.bind_of_ok same]
        exact (rest meant).complete inner left (within inside.2) innerPhrase stops
      · intro state input holds inside
        rcases List.head?_eq_some_iff.mp inside.1 with ⟨tail, rfl⟩
        rcases takes holds picked with ⟨taken, middle, same, meant, left⟩
        rw [ParseM.bind_of_ok same]
        exact (rest meant).total left (within inside.2)

/-- A step that takes one token if it is there and says whether it was. -/
theorem branch {step : ParseM ε σ Bool} {next : Bool -> ParseM ε σ β} {token : τ}
    {present absent : Phrases τ β} {behind : List τ -> Prop}
    (nonempty : forall {state : σ} {input : List τ}, reads state input -> input ≠ [])
    (takes : forall {state : σ} {rest : List τ}, reads state (token :: rest) ->
      Exists fun middle => step state = .ok true middle ∧ reads middle rest)
    (skips : forall {state : σ} {first : τ} {rest : List τ}, reads state (first :: rest) ->
      first ≠ token -> step state = .ok false state)
    (within : forall {rest : List τ}, domain (token :: rest) -> behind rest)
    (yes : Implements reads behind (next true) present)
    (no : Implements reads domain (next false) absent) :
    Implements reads domain (step >>= next) (Phrases.choose token present absent) where
  sound := by
    intro state final input value holds inside done
    rcases List.exists_cons_of_ne_nil (nonempty holds) with ⟨first, rest, rfl⟩
    by_cases same : first = token
    · subst same
      rcases takes holds with ⟨middle, taken, left⟩
      rw [ParseM.bind_of_ok taken] at done
      rcases yes.sound left (within inside) done with
        ⟨word, last, remaining, extending, rfl, leftAfter, phrase, stops⟩
      exact ⟨first :: word, last, remaining, extending, rfl, leftAfter,
        Phrases.choose_present phrase, stops⟩
    · rw [ParseM.bind_of_ok (skips holds same)] at done
      rcases no.sound holds inside done with
        ⟨word, last, remaining, extending, split, leftAfter, phrase, stops⟩
      cases word with
      | nil =>
          cases split
          refine ⟨[], first, rest, token :: extending, rfl, leftAfter,
            Phrases.choose_nil phrase, ?_⟩
          exact List.not_mem_cons_of_ne_of_not_mem same stops
      | cons head word =>
          cases split
          exact ⟨first :: word, last, remaining, extending, rfl, leftAfter,
            Phrases.choose_absent same phrase, stops⟩
  complete := by
    intro state word tail extending last value holds inside phrase stops
    rcases phrase with ⟨inner, rfl, innerPhrase⟩ | ⟨inner, innerPhrase, starts, rfl⟩
    · rcases takes holds with ⟨middle, taken, left⟩
      rw [ParseM.bind_of_ok taken]
      exact yes.complete inner left (within inside) innerPhrase stops
    · cases word with
      | nil =>
          rw [carry_nil, List.singleton_append, List.mem_cons, not_or] at stops
          rw [ParseM.bind_of_ok (skips holds stops.1)]
          exact no.complete [] holds inside innerPhrase stops.2
      | cons head word =>
          have other : head ≠ token := fun same => starts (congrArg some same)
          rw [ParseM.bind_of_ok (skips holds other)]
          exact no.complete (head :: word) holds inside innerPhrase stops
  total := by
    intro state input holds inside
    rcases List.exists_cons_of_ne_nil (nonempty holds) with ⟨first, rest, rfl⟩
    by_cases same : first = token
    · subst same
      rcases takes holds with ⟨middle, taken, left⟩
      rw [ParseM.bind_of_ok taken]
      exact yes.total left (within inside)
    · rw [ParseM.bind_of_ok (skips holds same)]
      exact no.total holds inside

end Implements
end Implements

end Foundation
end NovaDb
