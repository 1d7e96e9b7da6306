import Mathlib.Computability.Language

/-!
# Regular expressions

The shape regular expressions share, whatever stands for a single place in them: branches of items and
groups, each with how often it may occur. An expression denotes a language when every item does
(`lang`), and a relation between a stretch of the text and what stands around it when items may look at
their surroundings (`runs`). Where no item looks around, the two say the same (`runs_iff_mem_lang`).
-/

namespace Apim.Regex

/-- How often something may occur: at least `min` times, and at most `max` times. -/
structure Times where
  min : Nat
  max : Option Nat
  deriving DecidableEq, Repr

namespace Times

def once : Times := ⟨1, some 1⟩

def Allows (times : Times) (n : Nat) : Prop := times.min ≤ n ∧ ∀ max ∈ times.max, n ≤ max

theorem allows_once {n : Nat} : once.Allows n ↔ n = 1 := by
  constructor
  · rintro ⟨hmin, hmax⟩
    have hle := hmax 1 rfl
    have hge : 1 ≤ n := hmin
    omega
  · rintro rfl
    refine ⟨Nat.le_refl 1, fun max hmax => ?_⟩
    cases hmax
    exact Nat.le_refl 1

end Times

/-- An expression over items of `α`, whose quantifiers are written as `κ`. It ends where it is `done`,
and `bar` ends a branch. -/
inductive Pattern (α κ : Type) where
  | done
  | bar (rest : Pattern α κ)
  | item (a : α) (often : κ) (rest : Pattern α κ)
  | group (inner : Pattern α κ) (often : κ) (rest : Pattern α κ)
  deriving DecidableEq, Repr

namespace Pattern

variable {α β κ ι : Type}

def map (f : α → β) (g : κ → ι) : Pattern α κ → Pattern β ι
  | .done => .done
  | .bar rest => .bar (rest.map f g)
  | .item a often rest => .item (f a) (g often) (rest.map f g)
  | .group inner often rest => .group (inner.map f g) (g often) (rest.map f g)

/-- The items of an expression. -/
def items : Pattern α κ → List α
  | .done => []
  | .bar rest => rest.items
  | .item a _ rest => a :: rest.items
  | .group inner _ rest => inner.items ++ rest.items

/-- The quantifiers of an expression. -/
def quantifiers : Pattern α κ → List κ
  | .done => []
  | .bar rest => rest.quantifiers
  | .item _ often rest => often :: rest.quantifiers
  | .group inner often rest => often :: (inner.quantifiers ++ rest.quantifiers)

end Pattern

/-! ### Languages -/

section
variable {σ : Type}

/-- The words of the language one after another, as often as allowed. -/
def repeats (l : Language σ) (times : Times) : Language σ :=
  fun word => ∃ n, times.Allows n ∧ word ∈ l ^ n

theorem mem_repeats {l : Language σ} {times : Times} {word : List σ} :
    word ∈ repeats l times ↔ ∃ n, times.Allows n ∧ word ∈ l ^ n := Iff.rfl

theorem repeats_once (l : Language σ) : repeats l Times.once = l := by
  ext word
  rw [mem_repeats]
  constructor
  · rintro ⟨n, hn, hword⟩
    rwa [Times.allows_once.mp hn, pow_one] at hword
  · intro hword
    exact ⟨1, Times.allows_once.mpr rfl, by rwa [pow_one]⟩

/-! ### Stretches of a text -/

/-- A relation between what stands before a stretch, the stretch and what stands after it. -/
abbrev Span (σ : Type) := List σ → List σ → List σ → Prop

namespace Span

def empty : Span σ := fun _ taken _ => taken = []

def never : Span σ := fun _ _ _ => False

def either (r s : Span σ) : Span σ := fun before taken after =>
  r before taken after ∨ s before taken after

def seq (r s : Span σ) : Span σ := fun before taken after =>
  ∃ u v, taken = u ++ v ∧ r before u (v ++ after) ∧ s (before ++ u) v after

def pow (r : Span σ) : Nat → Span σ
  | 0 => empty
  | n + 1 => seq r (pow r n)

def repeats (r : Span σ) (times : Times) : Span σ := fun before taken after =>
  ∃ n, times.Allows n ∧ pow r n before taken after

theorem seq_empty (r : Span σ) : seq r empty = r := by
  funext before taken after
  apply propext
  constructor
  · rintro ⟨u, v, rfl, hr, rfl⟩
    rwa [List.append_nil, ← List.nil_append after]
  · intro hr
    exact ⟨taken, [], (List.append_nil taken).symm, by rwa [List.nil_append], rfl⟩

theorem repeats_once (r : Span σ) : repeats r Times.once = r := by
  funext before taken after
  apply propext
  have hpow : pow r 1 = r := seq_empty r
  constructor
  · rintro ⟨n, hn, hr⟩
    rw [Times.allows_once.mp hn, hpow] at hr
    exact hr
  · intro hr
    exact ⟨1, Times.allows_once.mpr rfl, by rwa [hpow]⟩

end Span

/-- The stretch is a word of the language, over the symbols of a set. -/
def Agrees (good : σ → Prop) (r : Span σ) (l : Language σ) : Prop :=
  ∀ before taken after, (∀ c ∈ taken, good c) → (r before taken after ↔ taken ∈ l)

namespace Agrees
variable {good : σ → Prop} {r s : Span σ} {l m : Language σ}

theorem empty : Agrees good Span.empty 1 := by
  intro before taken after _
  rw [Language.mem_one]
  exact Iff.rfl

theorem never : Agrees good Span.never 0 := by
  intro before taken after _
  exact iff_of_false id (Language.notMem_zero taken)

theorem either (hr : Agrees good r l) (hs : Agrees good s m) : Agrees good (Span.either r s) (l + m) := by
  intro before taken after hgood
  rw [Language.mem_add, Span.either, hr before taken after hgood, hs before taken after hgood]

theorem seq (hr : Agrees good r l) (hs : Agrees good s m) : Agrees good (Span.seq r s) (l * m) := by
  intro before taken after hgood
  rw [Language.mem_mul]
  constructor
  · rintro ⟨u, v, rfl, hu, hv⟩
    refine ⟨u, ?_, v, ?_, rfl⟩
    · exact (hr before u _ fun c hc => hgood c (List.mem_append_left v hc)).mp hu
    · exact (hs _ v after fun c hc => hgood c (List.mem_append_right u hc)).mp hv
  · rintro ⟨u, hu, v, hv, rfl⟩
    refine ⟨u, v, rfl, ?_, ?_⟩
    · exact (hr before u _ fun c hc => hgood c (List.mem_append_left v hc)).mpr hu
    · exact (hs _ v after fun c hc => hgood c (List.mem_append_right u hc)).mpr hv

theorem pow (hr : Agrees good r l) (n : Nat) : Agrees good (Span.pow r n) (l ^ n) := by
  induction n with
  | zero =>
    rw [pow_zero]
    exact empty
  | succ n ih =>
    rw [pow_succ']
    exact hr.seq ih

theorem repeats (hr : Agrees good r l) (times : Times) :
    Agrees good (Span.repeats r times) (Regex.repeats l times) := by
  intro before taken after hgood
  rw [mem_repeats]
  exact exists_congr fun n => and_congr_right fun _ => hr.pow n before taken after hgood

end Agrees

/-! ### What an expression denotes -/

namespace Pattern
variable {α β κ ι : Type}

/-- The language of the first branch, and of the others. -/
def branches (word : α → Language σ) (times : κ → Times) :
    Pattern α κ → Language σ × Language σ
  | .done => (1, 0)
  | .bar rest => (1, (rest.branches word times).1 + (rest.branches word times).2)
  | .item a often rest =>
    (repeats (word a) (times often) * (rest.branches word times).1, (rest.branches word times).2)
  | .group inner often rest =>
    (repeats ((inner.branches word times).1 + (inner.branches word times).2) (times often) *
      (rest.branches word times).1, (rest.branches word times).2)

/-- The language of an expression whose items denote languages. -/
def lang (word : α → Language σ) (times : κ → Times) (p : Pattern α κ) : Language σ :=
  (p.branches word times).1 + (p.branches word times).2

/-- The stretches of the first branch, and of the others. -/
def spans (span : α → Span σ) (times : κ → Times) : Pattern α κ → Span σ × Span σ
  | .done => (Span.empty, Span.never)
  | .bar rest => (Span.empty, Span.either (rest.spans span times).1 (rest.spans span times).2)
  | .item a often rest =>
    (Span.seq (Span.repeats (span a) (times often)) (rest.spans span times).1,
      (rest.spans span times).2)
  | .group inner often rest =>
    (Span.seq
      (Span.repeats (Span.either (inner.spans span times).1 (inner.spans span times).2) (times often))
      (rest.spans span times).1, (rest.spans span times).2)

/-- What an expression matches whose items look at their surroundings. -/
def runs (span : α → Span σ) (times : κ → Times) (p : Pattern α κ) : Span σ :=
  Span.either (p.spans span times).1 (p.spans span times).2

theorem spans_map (f : α → β) (g : κ → ι) (span : β → Span σ) (times : ι → Times)
    (p : Pattern α κ) :
    (p.map f g).spans span times = p.spans (fun a => span (f a)) (fun often => times (g often)) := by
  induction p with
  | done => rfl
  | bar rest ih => rw [map, spans, spans, ih]
  | item a often rest ih => rw [map, spans, spans, ih]
  | group inner often rest ihinner ih => rw [map, spans, spans, ihinner, ih]

theorem runs_map (f : α → β) (g : κ → ι) (span : β → Span σ) (times : ι → Times)
    (p : Pattern α κ) :
    (p.map f g).runs span times = p.runs (fun a => span (f a)) (fun often => times (g often)) := by
  rw [runs, runs, spans_map]

theorem agrees_spans {good : σ → Prop} {span : α → Span σ} {word : α → Language σ} {times : κ → Times}
    (p : Pattern α κ) (h : ∀ a ∈ p.items, Agrees good (span a) (word a)) :
    Agrees good (p.spans span times).1 (p.branches word times).1 ∧
      Agrees good (p.spans span times).2 (p.branches word times).2 := by
  induction p with
  | done => exact ⟨Agrees.empty, Agrees.never⟩
  | bar rest ih => exact ⟨Agrees.empty, (ih h).1.either (ih h).2⟩
  | item a often rest ih =>
    have hrest := ih fun b hb => h b (List.mem_cons_of_mem a hb)
    exact ⟨((h a List.mem_cons_self).repeats (times often)).seq hrest.1, hrest.2⟩
  | group inner often rest ihinner ih =>
    have hinner := ihinner fun b hb => h b (List.mem_append_left _ hb)
    have hrest := ih fun b hb => h b (List.mem_append_right _ hb)
    exact ⟨((hinner.1.either hinner.2).repeats (times often)).seq hrest.1, hrest.2⟩

/-- Over symbols on which every item takes what it denotes, the expression matches its language. -/
theorem runs_iff_mem_lang {good : σ → Prop} {span : α → Span σ} {word : α → Language σ}
    {times : κ → Times} (p : Pattern α κ) (h : ∀ a ∈ p.items, Agrees good (span a) (word a)) :
    Agrees good (p.runs span times) (p.lang word times) :=
  (p.agrees_spans h).1.either (p.agrees_spans h).2

end Pattern

end

end Apim.Regex
