import Mathlib.Data.List.Basic

/-!
Parsers over lists, the languages they recognise, and stateful readers that
simulate them.

A language `G` relates a value to the words that spell it. A parser recognises
`G` when it returns a value and a remaining input exactly where the input
starts with a word of that value; it follows that words of `G` cannot be
confused, whatever comes after them (`Recognises.unique`). A reader, a
computation with a state that delivers symbols one way or another, simulates a
parser when it makes the same choices on the symbols it still has to deliver;
a reader whose source is faulty may also end in a failed state.
-/
namespace Roll.Parsing
universe u

variable {β α γ ε σ : Type}

abbrev Parser (β α : Type) := StateT (List β) Option α

theorem bind_run (p : Parser β α) (q : α → Parser β γ) (s : List β) :
    (p >>= q) s = (p s).bind (fun r => q r.1 r.2) := by
  show StateT.bind p q s = _
  unfold StateT.bind
  cases p s <;> rfl

theorem pure_run (a : α) (s : List β) : (pure a : Parser β α) s = some (a, s) := rfl

/-! ### Primitive parsers -/

def reject : Parser β α := fun _ => none
/-- The next symbol, consumed. -/
def next : Parser β (Option β) := fun s => some (s.head?, s.tail)
/-- The next symbol, not consumed. -/
def peek : Parser β (Option β) := fun s => some (s.head?, s)
/-- At most `n` symbols. -/
def upTo (n : Nat) : Parser β (List β) := fun s => some (s.take n, s.drop n)
def refuse (condition : Bool) : Parser β Unit := fun s => if condition then none else some ((), s)
/-- Exactly `n` symbols. -/
def exactly (n : Nat) : Parser β (List β) := do
  let w ← upTo n
  refuse (w.length ≠ n)
  pure w

/-- A parser for each next symbol; at the end of the input there is none. -/
def nextThen (q : β → Parser β γ) : Parser β γ := do
  let b ← next
  b.elim reject q

theorem nextThen_cons (q : β → Parser β γ) (b : β) (s : List β) : nextThen q (b :: s) = q b s := by
  rw [nextThen, bind_run]
  rfl

/-- `refuse` in front of a parser. -/
theorem refuse_run (condition : Bool) (q : Unit → Parser β γ) (s : List β) :
    (refuse condition >>= q) s = if condition then none else q () s := by
  rw [bind_run]
  cases condition <;> rfl

/-! ### Languages -/

/-- On inputs shorter than `N` the parser returns `a` and leaves `t` exactly
    where the input is a word of `a` and then `t`, and `t` may follow `a`. -/
def RecognisesBefore (N : Nat) (p : Parser β α) (G F : α → List β → Prop) : Prop :=
  ∀ s, s.length < N → ∀ a t, p s = some (a, t) ↔ ∃ w, s = w ++ t ∧ G a w ∧ F a t

def Recognises (N : Nat) (p : Parser β α) (G : α → List β → Prop) : Prop :=
  RecognisesBefore N p G (fun _ _ => True)

variable {N : Nat}

theorem recognises_iff {p : Parser β α} {G : α → List β → Prop} :
    Recognises N p G ↔ ∀ s, s.length < N → ∀ a t, p s = some (a, t) ↔ ∃ w, s = w ++ t ∧ G a w := by
  simp only [Recognises, RecognisesBefore, and_true]

/-- A recognised language is free of ambiguity: a word with something after it
    that may follow splits off in one way. -/
theorem RecognisesBefore.unique {p : Parser β α} {G F : α → List β → Prop} (rec : RecognisesBefore N p G F)
    {a a' : α} {w w' t t' : List β} (short : (w ++ t).length < N) (word : G a w) (word' : G a' w') (follow : F a t)
    (follow' : F a' t') (same : w ++ t = w' ++ t') : a = a' ∧ w = w' ∧ t = t' := by
  have first : p (w ++ t) = some (a, t) := (rec _ short _ _).mpr ⟨w, rfl, word, follow⟩
  have second : p (w ++ t) = some (a', t') := (rec _ short _ _).mpr ⟨w', same, word', follow'⟩
  obtain ⟨values, rests⟩ : a = a' ∧ t = t' := by simpa using first.symm.trans second
  subst rests
  exact ⟨values, List.append_cancel_right same, rfl⟩

theorem RecognisesBefore.congr {p : Parser β α} {G H F : α → List β → Prop} (rec : RecognisesBefore N p G F)
    (same : ∀ a w, G a w ↔ H a w) : RecognisesBefore N p H F := by
  intro s short a t
  rw [rec s short a t]
  exact exists_congr (fun w => by rw [same])

theorem recognises_pure (a : α) : Recognises N (pure a : Parser β α) (fun b w => b = a ∧ w = []) := by
  rw [recognises_iff]
  intro s _ b t
  simp only [pure_run, Option.some.injEq, Prod.mk.injEq]
  constructor
  · rintro ⟨rfl, rfl⟩
    exact ⟨[], rfl, rfl, rfl⟩
  · rintro ⟨w, rfl, rfl, rfl⟩
    exact ⟨rfl, rfl⟩

/-- In sequence, the words are joined; what may follow is what may follow the
    second part. -/
theorem recognises_bind {p : Parser β α} {q : α → Parser β γ} {G : α → List β → Prop} {H : α → γ → List β → Prop}
    {F : γ → List β → Prop} (first : Recognises N p G) (second : ∀ a, RecognisesBefore N (q a) (H a) F) :
    RecognisesBefore N (p >>= q) (fun c w => ∃ a u v, w = u ++ v ∧ G a u ∧ H a c v) F := by
  intro s short c t
  rw [bind_run]
  constructor
  · intro run
    obtain ⟨⟨a, m⟩, ran, rest⟩ := Option.bind_eq_some_iff.mp run
    obtain ⟨u, rfl, word, _⟩ := (first _ short _ _).mp ran
    rw [List.length_append] at short
    obtain ⟨v, rfl, word', follow⟩ := (second a m (by omega) _ _).mp rest
    exact ⟨u ++ v, (List.append_assoc u v t).symm, ⟨a, u, v, rfl, word, word'⟩, follow⟩
  · rintro ⟨w, rfl, ⟨a, u, v, rfl, word, word'⟩, follow⟩
    rw [List.append_assoc] at short ⊢
    rw [(first _ short a (v ++ t)).mpr ⟨u, rfl, word, trivial⟩]
    rw [List.length_append] at short
    exact (second a (v ++ t) (by omega) _ _).mpr ⟨v, rfl, word', follow⟩

/-- A condition in front of a parser. -/
theorem recognises_refuse {condition : Bool} {q : Parser β γ} {G F : γ → List β → Prop}
    (rest : RecognisesBefore N q G F) :
    RecognisesBefore N (refuse condition >>= fun _ => q) (fun c w => condition = false ∧ G c w) F := by
  intro s short c t
  rw [refuse_run]
  cases condition with
  | true => simp
  | false =>
    rw [if_neg Bool.false_ne_true, rest s short c t]
    simp

/-- A choice by the next symbol. -/
theorem recognises_nextThen {q : β → Parser β γ} {H : β → γ → List β → Prop} {F : γ → List β → Prop}
    (rest : ∀ b, RecognisesBefore N (q b) (H b) F) :
    RecognisesBefore N (nextThen q) (fun c w => ∃ b v, w = b :: v ∧ H b c v) F := by
  intro s short c t
  cases s with
  | nil =>
    constructor
    · intro run
      cases run
    · rintro ⟨w, split, ⟨b, v, rfl, _⟩, _⟩
      cases split
  | cons b s =>
    rw [nextThen_cons, rest b s (by simp at short; omega) c t]
    constructor
    · rintro ⟨v, rfl, word, follow⟩
      exact ⟨b :: v, rfl, ⟨b, v, rfl, word⟩, follow⟩
    · rintro ⟨w, split, ⟨b', v, rfl, word⟩, follow⟩
      obtain ⟨rfl, rfl⟩ : b = b' ∧ s = v ++ t := by simpa using split
      exact ⟨v, rfl, word, follow⟩

theorem exactly_run (n : Nat) (s : List β) :
    (exactly n : Parser β (List β)) s = if n ≤ s.length then some (s.take n, s.drop n) else none := by
  simp only [exactly, bind_run, upTo, Option.bind_some, refuse, pure_run, List.length_take]
  by_cases enough : n ≤ s.length
  · simp [enough]
  · simp [enough, show ¬ min n s.length = n by omega]

theorem exactly_iff {n : Nat} {s b t : List β} :
    (exactly n : Parser β (List β)) s = some (b, t) ↔ s = b ++ t ∧ b.length = n := by
  rw [exactly_run]
  constructor
  · intro taken
    split at taken
    · next enough =>
      obtain ⟨rfl, rfl⟩ : s.take n = b ∧ s.drop n = t := by simpa using taken
      exact ⟨(List.take_append_drop n s).symm, by rw [List.length_take]; omega⟩
    · cases taken
  · rintro ⟨rfl, rfl⟩
    simp

theorem recognises_exactly (n : Nat) :
    Recognises N (exactly n : Parser β (List β)) (fun b w => w = b ∧ b.length = n) := by
  rw [recognises_iff]
  intro s _ b t
  rw [exactly_iff]
  constructor
  · rintro ⟨split, length⟩
    exact ⟨b, split, rfl, length⟩
  · rintro ⟨w, split, rfl, length⟩
    exact ⟨split, length⟩

/-! ### Repetition -/

/-- Words of the members of a list, one after the other. -/
inductive Many (G : α → List β → Prop) : List α → List β → Prop
  | nil : Many G [] []
  | cons {a : α} {as : List α} {u v : List β} : G a u → Many G as v → Many G (a :: as) (u ++ v)

theorem many_cons {G : α → List β → Prop} {a : α} {as : List α} {w : List β} :
    Many G (a :: as) w ↔ ∃ u v, w = u ++ v ∧ G a u ∧ Many G as v := by
  constructor
  · intro many
    cases many with
    | cons word rest => exact ⟨_, _, rfl, word, rest⟩
  · rintro ⟨u, v, rfl, word, rest⟩
    exact .cons word rest

theorem many_append {G : α → List β → Prop} {as bs : List α} {u v : List β} (first : Many G as u)
    (second : Many G bs v) : Many G (as ++ bs) (u ++ v) := by
  induction first with
  | nil => exact second
  | cons word _ ih =>
    rw [List.append_assoc]
    exact .cons word ih

/-- Words that begin with a symbol in `T`, one after the other and closed by a
    symbol `e` outside `T`, split in one way. -/
theorem many_unique {p : Nat → Parser β α} {G F : α → List β → Prop} {T : β → Prop} {e : β}
    (rec : ∀ N, RecognisesBefore N (p N) G F) (starts : ∀ a w, G a w → ∃ b v, w = b :: v ∧ T b) (stop : ¬ T e)
    (follow : ∀ a b t, T b ∨ b = e → F a (b :: t)) :
    ∀ {as : List α} {w : List β}, Many G as w → ∀ {as' : List α} {w' x y : List β}, Many G as' w' →
      w ++ e :: x = w' ++ e :: y → as = as' ∧ w = w' ∧ x = y := by
  have followed : ∀ a as (v x : List β), Many G as v → F a (v ++ e :: x) := by
    intro a as v x many
    cases many with
    | nil => exact follow a e x (.inr rfl)
    | cons word _ =>
      obtain ⟨b, u, rfl, begins⟩ := starts _ _ word
      exact follow a b _ (.inl begins)
  have ends : ∀ {a as} {w x y : List β}, Many G (a :: as) w → w ++ e :: x = e :: y → False := by
    intro a as w x y many same
    obtain ⟨u, v, rfl, word, _⟩ := many_cons.mp many
    obtain ⟨b, u', rfl, begins⟩ := starts _ _ word
    have head : b = e := by simpa using congrArg List.head? same
    exact stop (head ▸ begins)
  intro as w many
  induction many with
  | nil =>
    intro as' w' x y many' same
    cases many' with
    | nil => exact ⟨rfl, rfl, by simpa using same⟩
    | cons word rest => exact (ends (.cons word rest) same.symm).elim
  | @cons a as u v word rest ih =>
    intro as' w' x y many' same
    cases many' with
    | nil => exact (ends (.cons word rest) same).elim
    | @cons a' as' u' v' word' rest' =>
      rw [List.append_assoc, List.append_assoc] at same
      obtain ⟨rfl, rfl, tails⟩ := (rec _).unique (Nat.lt_succ_self _) word word' (followed a _ v x rest)
        (followed a' _ v' y rest') same
      obtain ⟨rfl, rfl, rfl⟩ := ih rest' tails
      exact ⟨rfl, rfl, rfl⟩

/-! ### Simulation -/

/-- A source of symbols behind a state: what it still delivers, and whether it
    is faulty; and the states in which it has failed. -/
structure Source (σ β : Type) where
  feeds : σ → List β → Bool → Prop
  failed : σ → Prop
  calm : ∀ s rest, feeds s rest false → ¬ failed s

/-- The state a computation ends in. -/
def after : EStateM.Result ε σ α → σ
  | .ok _ s => s
  | .error _ s => s

/-- A failure of the source stays; before it, the reader returns what the
    parser returns on the symbols still to come, and fails where it fails. -/
structure Simulates (S : Source σ β) (m : EStateM ε σ α) (p : Parser β α) : Prop where
  sticky : ∀ s, S.failed s → S.failed (after (m s))
  step : ∀ s rest faulty, S.feeds s rest faulty →
    match m s with
    | .ok a s' => faulty = true ∧ S.failed s' ∨ ∃ rest', p rest = some (a, rest') ∧ S.feeds s' rest' faulty
    | .error _ s' => faulty = true ∧ S.failed s' ∨ p rest = none ∧ ¬ S.failed s'

section
variable {S : Source σ β}

theorem bind_ok {m : EStateM ε σ α} {f : α → EStateM ε σ γ} {s s' : σ} {a : α} (run : m s = .ok a s') :
    (m >>= f) s = f a s' := by
  show EStateM.bind m f s = _
  simp only [EStateM.bind, run]

theorem bind_error {m : EStateM ε σ α} {f : α → EStateM ε σ γ} {s s' : σ} {e : ε} (run : m s = .error e s') :
    (m >>= f) s = .error e s' := by
  show EStateM.bind m f s = _
  simp only [EStateM.bind, run]

theorem bind_success {m : EStateM ε σ α} {f : α → EStateM ε σ γ} {s t : σ} {b : γ} (run : (m >>= f) s = .ok b t) :
    ∃ a s', m s = .ok a s' ∧ f a s' = .ok b t := by
  cases first : m s with
  | ok a s' =>
    rw [bind_ok first] at run
    exact ⟨a, s', rfl, run⟩
  | error e s' =>
    rw [bind_error first] at run
    cases run

theorem simulates_pure (a : α) : Simulates S (pure a : EStateM ε σ α) (pure a) where
  sticky _ failed := failed
  step _ rest _ feeds := .inr ⟨rest, rfl, feeds⟩

theorem simulates_bind {m : EStateM ε σ α} {f : α → EStateM ε σ γ} {p : Parser β α} {q : α → Parser β γ}
    (first : Simulates S m p) (second : ∀ a, Simulates S (f a) (q a)) : Simulates S (m >>= f) (p >>= q) where
  sticky s failed := by
    have kept := first.sticky s failed
    cases run : m s with
    | ok a s' =>
      rw [run] at kept
      rw [bind_ok run]
      exact (second a).sticky s' kept
    | error e s' =>
      rw [run] at kept
      rw [bind_error run]
      exact kept
  step s rest faulty feeds := by
    have outcome := first.step s rest faulty feeds
    cases run : m s with
    | error e s' =>
      simp only [run] at outcome
      rw [bind_error run, bind_run]
      rcases outcome with failed | ⟨none, alive⟩
      · exact .inl failed
      · exact .inr ⟨by rw [none]; rfl, alive⟩
    | ok a s' =>
      simp only [run] at outcome
      rw [bind_ok run, bind_run]
      rcases outcome with ⟨broken, failed⟩ | ⟨rest', parsed, feeds'⟩
      · have kept := (second a).sticky s' failed
        cases run' : f a s' with
        | ok c t => rw [run'] at kept; exact .inl ⟨broken, kept⟩
        | error e t => rw [run'] at kept; exact .inl ⟨broken, kept⟩
      · have outcome' := (second a).step s' rest' faulty feeds'
        rw [parsed, Option.bind_some]
        exact outcome'

theorem simulates_throw (e : ε) : Simulates S (throw e : EStateM ε σ α) reject where
  sticky _ failed := failed
  step s rest faulty feeds := by
    by_cases failed : S.failed s
    · refine .inl ⟨?_, failed⟩
      cases faulty with
      | true => rfl
      | false => exact absurd failed (S.calm s rest feeds)
    · exact .inr ⟨rfl, failed⟩

theorem simulates_refuse (condition : Bool) (e : ε) :
    Simulates S (if condition then throw e else pure () : EStateM ε σ Unit) (refuse condition) := by
  cases condition with
  | true => exact simulates_throw e
  | false => exact simulates_pure ()

theorem simulates_ite {condition : Prop} [Decidable condition] {m m' : EStateM ε σ α} {p p' : Parser β α}
    (yes : Simulates S m p) (no : Simulates S m' p') :
    Simulates S (if condition then m else m') (if condition then p else p') := by
  split
  · exact yes
  · exact no

theorem simulates_nextThen {m : EStateM ε σ (Option β)} {f : Option β → EStateM ε σ α} {q : β → Parser β α}
    (first : Simulates S m next) (none : Simulates S (f none) reject) (some : ∀ b, Simulates S (f (some b)) (q b)) :
    Simulates S (m >>= f) (nextThen q) := by
  refine simulates_bind first (fun b => ?_)
  cases b with
  | none => exact none
  | some b => exact some b

/-- A computation that leaves the source as it is. -/
theorem simulates_silent {m : EStateM ε σ α} {a : α} (runs : ∀ s, ∃ s', m s = .ok a s' ∧
    (∀ rest faulty, S.feeds s rest faulty → S.feeds s' rest faulty) ∧ (S.failed s → S.failed s')) :
    Simulates S m (pure a) where
  sticky s failed := by
    obtain ⟨s', run, _, kept⟩ := runs s
    rw [run]
    exact kept failed
  step s rest faulty feeds := by
    obtain ⟨s', run, kept, _⟩ := runs s
    rw [run]
    exact .inr ⟨rest, rfl, kept rest faulty feeds⟩

/-- Work after a reader that returns what it has returned. -/
theorem simulates_after {m : EStateM ε σ α} {f : α → EStateM ε σ α} {p : Parser β α} (first : Simulates S m p)
    (kept : ∀ a, Simulates S (f a) (pure a)) : Simulates S (m >>= f) p := by
  have both := simulates_bind first kept
  rwa [bind_pure] at both

/-- Without a fault the reader does exactly what the parser does. -/
theorem Simulates.calm {m : EStateM ε σ α} {p : Parser β α} (sim : Simulates S m p) {s : σ} {rest : List β}
    (feeds : S.feeds s rest false) :
    (∃ a s' rest', m s = .ok a s' ∧ p rest = some (a, rest') ∧ S.feeds s' rest' false) ∨
      ∃ e s', m s = .error e s' ∧ p rest = none ∧ ¬ S.failed s' := by
  have outcome := sim.step s rest false feeds
  cases run : m s with
  | ok a s' =>
    simp only [run, Bool.false_eq_true, false_and, false_or] at outcome
    obtain ⟨rest', parsed, feeds'⟩ := outcome
    exact .inl ⟨a, s', rest', rfl, parsed, feeds'⟩
  | error e s' =>
    simp only [run, Bool.false_eq_true, false_and, false_or] at outcome
    exact .inr ⟨e, s', rfl, outcome⟩

/-- On input the parser accepts, a reader of a faultless source accepts. -/
theorem Simulates.accepts {m : EStateM ε σ α} {p : Parser β α} (sim : Simulates S m p) {s : σ} {rest rest' : List β}
    {a : α} (feeds : S.feeds s rest false) (parsed : p rest = some (a, rest')) :
    ∃ s', m s = .ok a s' ∧ S.feeds s' rest' false := by
  rcases sim.calm feeds with ⟨b, s', rest'', run, parsed', feeds'⟩ | ⟨_, _, _, none, _⟩
  · obtain ⟨rfl, rfl⟩ : b = a ∧ rest'' = rest' := by simpa using parsed'.symm.trans parsed
    exact ⟨s', run, feeds'⟩
  · rw [parsed] at none
    cases none

end

end Roll.Parsing
