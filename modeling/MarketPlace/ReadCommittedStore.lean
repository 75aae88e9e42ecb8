import Mathlib.Logic.Basic
import Mathlib.Data.List.Basic

/-!
# A store with row locks at READ COMMITTED

Transactions queue their writes, take the locks of the rows they write, and
see the committed data with their own queue applied.  A commit applies the
queue at once and releases the locks.  A write outside of a transaction is a
transaction of its own.

What a write does to the data and which locks it needs is a parameter.
-/

namespace ReadCommitted

structure Schema (D W L : Type) where
  apply : W → D → D
  footprint : W → D → List L

structure Store (D W L : Type) where
  committed : D
  queue : ℕ → List W
  holder : L → Option ℕ

variable {D W L : Type}

/-- The data after a list of writes, in their order. -/
def Schema.settle (S : Schema D W L) (writes : List W) (data : D) : D :=
  writes.foldl (fun data write => S.apply write data) data

namespace Store

variable (S : Schema D W L)

def fresh (data : D) : Store D W L := ⟨data, fun _ => [], fun _ => none⟩

def view (store : Store D W L) (i : ℕ) : D :=
  S.settle (store.queue i) store.committed

/-- Nobody holds one of these locks. -/
def unlocked (store : Store D W L) (locks : List L) : Bool :=
  locks.all fun lock => store.holder lock = none

/-- Nobody but transaction `i` holds one of these locks. -/
def available (store : Store D W L) (i : ℕ) (locks : List L) : Bool :=
  locks.all fun lock =>
    store.holder lock = none ∨ store.holder lock = some i

def lock [DecidableEq L] (store : Store D W L) (i : ℕ) (locks : List L) : Store D W L :=
  { store with
    holder := fun lock =>
      if lock ∈ locks then some i else store.holder lock }

def setQueue (store : Store D W L) (i : ℕ) (writes : List W) :
    Store D W L :=
  { store with queue := fun j => if j = i then writes else store.queue j }

def release (store : Store D W L) (i : ℕ) : Store D W L :=
  { store with
    holder := fun lock =>
      if store.holder lock = some i then none else store.holder lock }

def autocommit (store : Store D W L) (write : W) : Store D W L :=
  { store with committed := S.apply write store.committed }

def enqueue [DecidableEq L]
    (store : Store D W L) (i : ℕ) (write : W) : Store D W L :=
  (store.lock i (S.footprint write (store.view S i))).setQueue i
    (store.queue i ++ [write])

def rollback (store : Store D W L) (i : ℕ) : Store D W L :=
  (store.setQueue i []).release i

def commit (store : Store D W L) (i : ℕ) : Store D W L :=
  { store with committed := store.view S i }.rollback i

/-! ## Who sees what -/

@[simp] theorem committed_lock [DecidableEq L]
    (store : Store D W L) (i : ℕ) (locks : List L) :
    (store.lock i locks).committed = store.committed := rfl

@[simp] theorem queue_lock [DecidableEq L]
    (store : Store D W L) (i : ℕ) (locks : List L) :
    (store.lock i locks).queue = store.queue := rfl

@[simp] theorem committed_autocommit (store : Store D W L) (write : W) :
    (store.autocommit S write).committed =
      S.apply write store.committed := rfl

@[simp] theorem queue_autocommit (store : Store D W L) (write : W) :
    (store.autocommit S write).queue = store.queue := rfl

@[simp] theorem holder_autocommit (store : Store D W L) (write : W) :
    (store.autocommit S write).holder = store.holder := rfl

@[simp] theorem committed_enqueue [DecidableEq L]
    (store : Store D W L) (i : ℕ) (write : W) :
    (store.enqueue S i write).committed = store.committed := rfl

@[simp] theorem queue_enqueue [DecidableEq L]
    (store : Store D W L) (i : ℕ) (write : W) :
    (store.enqueue S i write).queue i = store.queue i ++ [write] :=
  if_pos rfl

@[simp] theorem committed_rollback (store : Store D W L) (i : ℕ) :
    (store.rollback i).committed = store.committed := rfl

@[simp] theorem queue_rollback (store : Store D W L) (i : ℕ) :
    (store.rollback i).queue i = [] :=
  if_pos rfl

@[simp] theorem committed_commit (store : Store D W L) (i : ℕ) :
    (store.commit S i).committed = store.view S i := rfl

@[simp] theorem queue_commit (store : Store D W L) (i : ℕ) :
    (store.commit S i).queue i = [] :=
  if_pos rfl

theorem queue_enqueue_of_ne [DecidableEq L]
    (store : Store D W L) {i j : ℕ} (write : W) (hne : j ≠ i) :
    (store.enqueue S i write).queue j = store.queue j :=
  if_neg hne

theorem queue_rollback_of_ne
    (store : Store D W L) {i j : ℕ} (hne : j ≠ i) :
    (store.rollback i).queue j = store.queue j :=
  if_neg hne

theorem queue_commit_of_ne
    (store : Store D W L) {i j : ℕ} (hne : j ≠ i) :
    (store.commit S i).queue j = store.queue j :=
  if_neg hne

theorem view_of_queue_eq_nil {store : Store D W L} {i : ℕ}
    (hqueue : store.queue i = []) : store.view S i = store.committed := by
  rw [view, hqueue]
  rfl

/-! ## Locks -/

theorem holder_of_available
    {store : Store D W L} {i : ℕ} {locks : List L} {lock : L}
    (havailable : store.available i locks = true) (hmem : lock ∈ locks) :
    store.holder lock = none ∨ store.holder lock = some i := by
  simpa using List.all_eq_true.mp havailable lock hmem

/-- A held lock stays with its holder when somebody else takes locks that are
available to them. -/
theorem holder_lock_of_held [DecidableEq L]
    {store : Store D W L} {i j : ℕ} {locks : List L} {lock : L}
    (havailable : store.available j locks = true)
    (hheld : store.holder lock = some i) :
    (store.lock j locks).holder lock = some i := by
  simp only [Store.lock]
  split
  · next hmem =>
      rcases holder_of_available havailable hmem with hnone | hself
      · rw [hheld] at hnone
        contradiction
      · rw [← hself, hheld]
  · exact hheld

theorem holder_lock_of_mem [DecidableEq L]
    {store : Store D W L} {i : ℕ} {locks : List L} {lock : L}
    (hmem : lock ∈ locks) : (store.lock i locks).holder lock = some i :=
  if_pos hmem

theorem holder_rollback_of_held
    {store : Store D W L} {i j : ℕ} {lock : L}
    (hheld : store.holder lock = some i) (hne : i ≠ j) :
    (store.rollback j).holder lock = some i := by
  simp only [rollback, release, setQueue, hheld, Option.some.injEq, hne,
    if_false]

theorem holder_commit_of_held
    {store : Store D W L} {i j : ℕ} {lock : L}
    (hheld : store.holder lock = some i) (hne : i ≠ j) :
    (store.commit S j).holder lock = some i :=
  holder_rollback_of_held hheld hne

/-- Every transaction holds the locks that its queued writes need. -/
def Holds (store : Store D W L) (needs : W → L → Prop) : Prop :=
  ∀ i, ∀ write ∈ store.queue i, ∀ lock, needs write lock →
    store.holder lock = some i

section Holds

variable {S} {store : Store D W L} {needs : W → L → Prop} {i : ℕ}

theorem holds_fresh {data : D} : (fresh data : Store D W L).Holds needs :=
  fun _ _ hwrite => absurd hwrite List.not_mem_nil

theorem Holds.lock [DecidableEq L] {locks : List L}
    (h : store.Holds needs) (havailable : store.available i locks = true) :
    (store.lock i locks).Holds needs :=
  fun j write hwrite lock hneeds =>
    holder_lock_of_held havailable (h j write hwrite lock hneeds)

theorem Holds.enqueue [DecidableEq L] {write : W}
    (h : store.Holds needs)
    (havailable :
      store.available i (S.footprint write (store.view S i)) = true)
    (hneeded : ∀ lock, needs write lock →
      lock ∈ S.footprint write (store.view S i) ∨
        store.holder lock = some i) :
    (store.enqueue S i write).Holds needs := by
  intro j other hother lock hneeds
  by_cases hj : j = i
  · subst hj
    rw [queue_enqueue, List.mem_append, List.mem_singleton] at hother
    rcases hother with hother | rfl
    · exact h.lock havailable j other hother lock hneeds
    · rcases hneeded lock hneeds with hmem | hheld
      · exact holder_lock_of_mem hmem
      · exact holder_lock_of_held havailable hheld
  · rw [queue_enqueue_of_ne S store write hj] at hother
    exact h.lock havailable j other hother lock hneeds

theorem Holds.rollback (h : store.Holds needs) :
    (store.rollback i).Holds needs := by
  intro j write hwrite lock hneeds
  by_cases hj : j = i
  · subst hj
    rw [queue_rollback] at hwrite
    exact absurd hwrite List.not_mem_nil
  · rw [queue_rollback_of_ne store hj] at hwrite
    exact holder_rollback_of_held (h j write hwrite lock hneeds) hj

theorem Holds.commit (h : store.Holds needs) :
    (store.commit S i).Holds needs := by
  intro j write hwrite lock hneeds
  by_cases hj : j = i
  · subst hj
    rw [queue_commit] at hwrite
    exact absurd hwrite List.not_mem_nil
  · rw [queue_commit_of_ne S store hj] at hwrite
    exact holder_commit_of_held S (h j write hwrite lock hneeds) hj

/-- No two transactions have queued writes that need the same lock. -/
theorem Holds.unique (h : store.Holds needs) {j : ℕ} {write other : W}
    {lock : L} (hwrite : write ∈ store.queue i) (hneeds : needs write lock)
    (hother : other ∈ store.queue j) (hneeds' : needs other lock) : i = j := by
  have hi := h i write hwrite lock hneeds
  have hj := h j other hother lock hneeds'
  rw [hi, Option.some.injEq] at hj
  exact hj

end Holds

/-- What every write of a list preserves, the whole list preserves. -/
theorem settle_preserves
    {fact : D → Prop} {writes : List W} {data : D}
    (hwrites : ∀ write ∈ writes, ∀ data, fact data → fact (S.apply write data))
    (hfact : fact data) : fact (S.settle writes data) := by
  induction writes generalizing data with
  | nil => exact hfact
  | cons write rest ih =>
      exact ih (fun other hother => hwrites other (List.mem_cons_of_mem _ hother))
        (hwrites write List.mem_cons_self data hfact)

end Store

end ReadCommitted
