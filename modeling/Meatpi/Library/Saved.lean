import Meatpi.Library.Walk

/-!
# Files saved through a temporary name

A file is saved by writing it under a temporary name and renaming that, so that
whatever had the temporary name is gone. `FileTask` is what a program is asked to
do with its files, `Said` what a list of tasks says of a path, and `DoesAll` what
carrying them out does. Carried out, the files are what the tasks say exactly when
no file has the temporary name of one that is saved later (`inPlace_iff`).
-/

namespace Meatpi

open Function List

universe u v

/-- What is to be done with the files. -/
inductive FileTask (P : Type u) (D : Type v) where
  /-- the file has this content -/
  | put (path : P) (data : D)
  /-- there is no such file -/
  | remove (path : P)
  /-- these files may go -/
  | clear (inside : P → Prop)

namespace FileTask

variable {P : Type u} {D : Type v}

/-- The task is about that path. -/
def Speaks (p : P) : FileTask P D → Prop
  | put path _ => path = p
  | remove path => path = p
  | clear inside => inside p

/-- What the task says of a path. -/
def Tells (p : P) (v : Option D) : FileTask P D → Prop
  | put path data => path = p ∧ v = some data
  | remove path => path = p ∧ v = none
  | clear _ => False

/-- What the last task about a path says of it. -/
def Said (p : P) (v : Option D) : List (FileTask P D) → Prop
  | [] => False
  | t :: ts => Said p v ts ∨ (Tells p v t ∧ ∀ t' ∈ ts, ¬Speaks p t')

/-- The files are what the tasks say. -/
def InPlace (ts : List (FileTask P D)) (files : P → Option D) : Prop :=
  ∀ p v, Said p v ts → files p = v

/-- A file that no later task is about does not have the temporary name of one
that is saved later. -/
def Unspoilt (temp : P → P) : List (FileTask P D) → Prop
  | [] => True
  | t :: ts =>
    (∀ p data, t = put p data → (∀ t' ∈ ts, ¬Speaks p t') →
      ∀ q data', put q data' ∈ ts → temp q ≠ p) ∧ Unspoilt temp ts

section

variable [DecidableEq P]

/-- What a task does to the files. -/
def Does (temp : P → P) (files files' : P → Option D) : FileTask P D → Prop
  | put path data =>
    files' = Function.update (Function.update files (temp path) none) path (some data)
  | remove path => files' = Function.update files path none
  | clear inside => ∀ p, ¬inside p → files' p = files p

/-- What a list of tasks does to the files. -/
inductive DoesAll (temp : P → P) :
    (P → Option D) → List (FileTask P D) → (P → Option D) → Prop
  | nil (files : P → Option D) : DoesAll temp files [] files
  | cons {files files' files'' : P → Option D} {t : FileTask P D} {ts : List (FileTask P D)} :
      Does temp files files' t → DoesAll temp files' ts files'' →
      DoesAll temp files (t :: ts) files''

variable {temp : P → P} {files files' files'' : P → Option D} {ts ts' : List (FileTask P D)}

theorem DoesAll.append (h : DoesAll temp files ts files') (h' : DoesAll temp files' ts' files'') :
    DoesAll temp files (ts ++ ts') files'' := by
  induction h with
  | nil files => exact h'
  | cons hdoes _ ih => exact .cons hdoes (ih h')

theorem DoesAll.single {t : FileTask P D} (h : Does temp files files' t) :
    DoesAll temp files [t] files' := .cons h (.nil files')

theorem DoesAll.walk {S A E : Type*} {act : S → A → Except E Unit × S} (f : S → P → Option D)
    {tasks : A → List (FileTask P D)}
    (hact : ∀ s a, (act s a).1 = .ok () → DoesAll temp (f s) (tasks a) (f (act s a).2))
    {as : List A} : ∀ {s : S}, (Meatpi.walk act s as).1 = .ok () →
      DoesAll temp (f s) (as.flatMap tasks) (f (Meatpi.walk act s as).2) := by
  induction as with
  | nil =>
    intro s _
    exact .nil (f s)
  | cons a as ih =>
    intro s hok
    obtain ⟨hfirst, -⟩ := walk_ok_iff.mp hok
    rw [walk_cons_ok as hfirst] at hok ⊢
    exact (hact s a hfirst).append (ih hok)

theorem Does.other {t : FileTask P D} {p : P} (h : Does temp files files' t) (hp : ¬Speaks p t) :
    (∃ q data, t = put q data ∧ temp q = p ∧ files' p = none) ∨
      (∀ q data, t = put q data → temp q ≠ p) ∧ files' p = files p := by
  cases t with
  | put path data =>
    have hne : p ≠ path := fun he => hp he.symm
    by_cases htemp : temp path = p
    · left
      refine ⟨path, data, rfl, htemp, ?_⟩
      rw [h, update_of_ne hne, htemp, update_self]
    · right
      constructor
      · intro q data' hput
        cases hput
        exact htemp
      · rw [h, update_of_ne hne, update_of_ne (Ne.symm htemp)]
  | remove path =>
    right
    constructor
    · intro q data' hput
      cases hput
    · have hne : p ≠ path := fun he => hp he.symm
      rw [h, update_of_ne hne]
  | clear inside =>
    right
    constructor
    · intro q data' hput
      cases hput
    · exact h p hp

theorem DoesAll.absent (h : DoesAll temp files ts files') {p : P} :
    (∀ t ∈ ts, ¬Speaks p t) → files p = none → files' p = none := by
  induction h with
  | nil files => exact fun _ hnone => hnone
  | @cons files files₁ files₂ t ts hdoes _ ih =>
    intro hp hnone
    apply ih fun t' ht' => hp t' (mem_cons_of_mem t ht')
    rcases hdoes.other (hp t mem_cons_self) with ⟨_, _, _, _, hgone⟩ | ⟨_, hsame⟩
    · exact hgone
    · rw [hsame, hnone]

/-- Tasks that are not about a path take the file there when it has the temporary
name of one that they save. -/
theorem DoesAll.taken (h : DoesAll temp files ts files') {p q : P} {data : D} :
    (∀ t ∈ ts, ¬Speaks p t) → put q data ∈ ts → temp q = p → files' p = none := by
  induction h with
  | nil files => exact fun _ hmem => (not_mem_nil hmem).elim
  | @cons files files₁ files₂ t ts hdoes hrest ih =>
    intro hp hmem htemp
    have hp' : ∀ t' ∈ ts, ¬Speaks p t' := fun t' ht' => hp t' (mem_cons_of_mem t ht')
    rcases mem_cons.mp hmem with rfl | hmem'
    · rcases hdoes.other (hp _ mem_cons_self) with ⟨_, _, _, _, hgone⟩ | ⟨hne, _⟩
      · exact hrest.absent hp' hgone
      · exact absurd htemp (hne q data rfl)
    · exact ih hp' hmem' htemp

theorem DoesAll.frame (h : DoesAll temp files ts files') {p : P} :
    (∀ t ∈ ts, ¬Speaks p t) → (∀ q data, put q data ∈ ts → temp q ≠ p) → files' p = files p := by
  induction h with
  | nil files => exact fun _ _ => rfl
  | @cons files files₁ files₂ t ts hdoes _ ih =>
    intro hp hne
    rw [ih (fun t' ht' => hp t' (mem_cons_of_mem t ht'))
      fun q data hmem => hne q data (mem_cons_of_mem t hmem)]
    rcases hdoes.other (hp t mem_cons_self) with ⟨q, data, rfl, htemp, _⟩ | ⟨_, hsame⟩
    · exact absurd htemp (hne q data mem_cons_self)
    · exact hsame

theorem Does.tells {t : FileTask P D} {p : P} {v : Option D} (h : Does temp files files' t)
    (htells : Tells p v t) : files' p = v := by
  cases t with
  | put path data =>
    obtain ⟨rfl, rfl⟩ := htells
    rw [h, update_self]
  | remove path =>
    obtain ⟨rfl, rfl⟩ := htells
    rw [h, update_self]
  | clear inside => exact htells.elim

/-- **The files are what the tasks say** exactly when no file is taken for the
temporary name of a later one. -/
theorem DoesAll.inPlace_iff (h : DoesAll temp files ts files') :
    InPlace ts files' ↔ Unspoilt temp ts := by
  induction h with
  | nil files => exact ⟨fun _ => trivial, fun _ _ _ hsaid => hsaid.elim⟩
  | @cons files files₁ files₂ t ts hdoes hrest ih =>
    rw [Unspoilt, ← ih]
    constructor
    · intro hplace
      refine ⟨?_, fun p v hsaid => hplace p v (.inl hsaid)⟩
      rintro p data rfl hlast q data' hmem htemp
      have hthere := hplace p (some data) (.inr ⟨⟨rfl, rfl⟩, hlast⟩)
      rw [hrest.taken hlast hmem htemp] at hthere
      cases hthere
    · rintro ⟨hhead, htail⟩ p v (hsaid | ⟨htells, hlast⟩)
      · exact htail p v hsaid
      · have hnow := hdoes.tells htells
        cases v with
        | none => exact hrest.absent hlast hnow
        | some data =>
          cases t with
          | put path data' =>
            obtain ⟨rfl, -⟩ := htells
            rw [hrest.frame hlast (hhead path data' rfl hlast), hnow]
          | remove path => cases htells.2
          | clear inside => exact htells.elim

end

end FileTask

end Meatpi
