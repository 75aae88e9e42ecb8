import Mathlib.Data.List.Perm.Subperm

/-!
# Paging with a cursor

A client fetches the newest items page by page.  Each page is taken from the
items whose key is below the cursor, and the key of the page's oldest item,
rounded down, is the next cursor.  The client always stops and never sees an
item twice; it sees all of them exactly when at the end of every full page the
next key is below the rounded one.
-/

namespace CursorPaging

variable {α : Type} (key : α → ℕ) (floor : ℕ → ℕ) (size : ℕ)

/-- The items that are below the cursor. -/
def before (items : List α) (cursor : Option ℕ) : List α :=
  items.filter fun item => cursor.all fun bound => key item < bound

def NewestFirst (items : List α) : Prop :=
  items.Pairwise fun item other => key other ≤ key item

/-- The newest items below the cursor, however equal keys are arranged. -/
def IsPage (items : List α) (cursor : Option ℕ) (page : List α) : Prop :=
  ∃ sorted, sorted.Perm (before key items cursor) ∧ NewestFirst key sorted ∧
    page = sorted.take size

/-- A client that starts with this cursor sees these items, and stops. -/
inductive Visits (items : List α) : Option ℕ → List α → Prop
  | stop {cursor : Option ℕ} (hpage : IsPage key size items cursor []) :
      Visits items cursor []
  | next {cursor : Option ℕ} {page rest : List α} {oldest : α}
      (hpage : IsPage key size items cursor page)
      (holdest : page.getLast? = some oldest)
      (hrest : Visits items (some (floor (key oldest))) rest) :
      Visits items cursor (page ++ rest)

/-- At the end of every full page the next key is below the rounded last one.
The keys are listed newest first. -/
def Apart (keys : List ℕ) : Prop :=
  ∀ k last next, keys[(k + 1) * size - 1]? = some last →
    keys[(k + 1) * size]? = some next → next < floor last

/-- What `Apart` says of the first page. -/
def ApartAtFirst (keys : List ℕ) : Prop :=
  ∀ last next, keys[size - 1]? = some last → keys[size]? = some next →
    next < floor last

variable {key floor size}

theorem apart_iff (hsize : 0 < size) (keys : List ℕ) :
    Apart floor size keys ↔
      ApartAtFirst floor size keys ∧ Apart floor size (keys.drop size) := by
  have hindex : ∀ k, size + ((k + 1) * size - 1) = (k + 1 + 1) * size - 1 := by
    intro k
    have hle : size ≤ (k + 1) * size := Nat.le_mul_of_pos_left size (by omega)
    rw [Nat.succ_mul (k + 1)]
    omega
  have hindex' : ∀ k, size + (k + 1) * size = (k + 1 + 1) * size := by
    intro k
    rw [Nat.succ_mul (k + 1), Nat.add_comm]
  constructor
  · intro h
    refine ⟨fun last next hlast hnext => ?_, fun k last next hlast hnext => ?_⟩
    · exact h 0 last next (by simpa using hlast) (by simpa using hnext)
    · rw [List.getElem?_drop] at hlast hnext
      exact h (k + 1) last next (hindex k ▸ hlast) (hindex' k ▸ hnext)
  · rintro ⟨hfirst, hrest⟩ k last next hlast hnext
    cases k with
    | zero => exact hfirst last next (by simpa using hlast) (by simpa using hnext)
    | succ k =>
        refine hrest k last next ?_ ?_
        · rw [List.getElem?_drop, hindex k]
          exact hlast
        · rw [List.getElem?_drop, hindex' k]
          exact hnext

theorem NewestFirst.keys_eq {items other : List α}
    (h : NewestFirst key items) (h' : NewestFirst key other)
    (hperm : items.Perm other) : items.map key = other.map key :=
  List.Perm.eq_of_pairwise
    (fun a b _ _ (hle : b ≤ a) (hle' : a ≤ b) => Nat.le_antisymm hle' hle)
    (List.pairwise_map.mpr h) (List.pairwise_map.mpr h') (hperm.map key)

theorem NewestFirst.sublist {items other : List α}
    (h : NewestFirst key items) (hsublist : other.Sublist items) :
    NewestFirst key other :=
  List.Pairwise.sublist hsublist h

theorem NewestFirst.oldest_le {page : List α} {oldest item : α}
    (h : NewestFirst key page) (holdest : page.getLast? = some oldest)
    (hitem : item ∈ page) : key oldest ≤ key item := by
  obtain ⟨newer, rfl⟩ := List.getLast?_eq_some_iff.mp holdest
  rcases List.mem_append.mp hitem with hnewer | hlast
  · exact (List.pairwise_append.mp h).2.2 item hnewer oldest
      (List.mem_singleton_self oldest)
  · obtain rfl := List.mem_singleton.mp hlast
    exact Nat.le_refl _

/-! ## The next page -/

section Next

variable {items sorted : List α} {cursor : Option ℕ} {oldest : α}

/-- The items below the next cursor are those that the page left and that are
below it. -/
theorem perm_before_next (hfloor : ∀ time, floor time ≤ time)
    (hperm : sorted.Perm (before key items cursor))
    (hsorted : NewestFirst key sorted)
    (holdest : (sorted.take size).getLast? = some oldest) :
    ((sorted.drop size).filter fun item =>
      key item < floor (key oldest)).Perm
        (before key items (some (floor (key oldest)))) := by
  have hoverall : before key items (some (floor (key oldest))) =
      (before key items cursor).filter fun item =>
        key item < floor (key oldest) := by
    have hmem : oldest ∈ before key items cursor :=
      hperm.subset (List.mem_of_mem_take (List.mem_of_getLast? holdest))
    have hcursor := (List.mem_filter.mp hmem).2
    rw [before, before, List.filter_filter]
    refine List.filter_congr fun item _ => ?_
    cases cursor with
    | none => simp
    | some bound =>
        have hle := hfloor (key oldest)
        simp only [Option.all_some, decide_eq_true_eq] at hcursor
        refine Bool.eq_iff_iff.mpr ?_
        simp only [Option.all_some, Bool.and_eq_true, decide_eq_true_eq]
        omega
  have htaken : (sorted.take size).filter
      (fun item => decide (key item < floor (key oldest))) = [] := by
    refine List.filter_eq_nil_iff.mpr fun item hitem => ?_
    have hle := (hsorted.sublist (List.take_sublist size sorted)).oldest_le
      holdest hitem
    have hle' := hfloor (key oldest)
    simp only [decide_eq_true_eq]
    omega
  have hsplit : sorted.filter (fun item =>
      decide (key item < floor (key oldest))) =
        (sorted.drop size).filter fun item =>
          decide (key item < floor (key oldest)) := by
    conv_lhs => rw [← List.take_append_drop size sorted, List.filter_append,
      htaken, List.nil_append]
  rw [hoverall, ← hsplit]
  exact hperm.filter _

/-- The page leaves nothing that is not below the next cursor, if the keys are
apart at its end. -/
theorem forall_drop_lt_iff (hsize : 0 < size)
    (hsorted : NewestFirst key sorted)
    (holdest : (sorted.take size).getLast? = some oldest) :
    (∀ item ∈ sorted.drop size, key item < floor (key oldest)) ↔
      ApartAtFirst floor size (sorted.map key) := by
  have hlast : ∀ next, sorted[size]? = some next →
      sorted[size - 1]? = some oldest := by
    intro next hnext
    have hlt : size < sorted.length := (List.getElem?_eq_some_iff.mp hnext).1
    rw [List.getLast?_take, if_neg (Nat.ne_of_gt hsize),
      List.getElem?_eq_getElem (by omega), Option.some_or] at holdest
    rw [List.getElem?_eq_getElem (by omega)]
    exact holdest
  constructor
  · intro h last next hlast' hnext
    rw [List.getElem?_map, Option.map_eq_some_iff] at hlast' hnext
    obtain ⟨item, hitem, rfl⟩ := hlast'
    obtain ⟨other, hother, rfl⟩ := hnext
    obtain rfl := Option.some.inj (hitem.symm.trans (hlast other hother))
    refine h other (List.mem_of_getElem? (i := 0) ?_)
    rw [List.getElem?_drop]
    exact hother
  · intro h item hitem
    cases hdrop : sorted.drop size with
    | nil => simp [hdrop] at hitem
    | cons next rest =>
        have hnext : sorted[size]? = some next := by
          have hhead : (sorted.drop size)[0]? = some next := by rw [hdrop]; rfl
          rwa [List.getElem?_drop] at hhead
        have hbelow := h (key oldest) (key next)
          (by rw [List.getElem?_map, hlast next hnext]; rfl)
          (by rw [List.getElem?_map, hnext]; rfl)
        have hrest := hsorted.sublist (List.drop_sublist size sorted)
        rw [hdrop] at hrest hitem
        rcases List.mem_cons.mp hitem with rfl | hitem
        · exact hbelow
        · exact Nat.lt_of_le_of_lt ((List.pairwise_cons.mp hrest).1 item hitem)
            hbelow

/-- Fewer items are below the next cursor. -/
theorem length_before_next_lt (hsize : 0 < size)
    (hfloor : ∀ time, floor time ≤ time)
    (hperm : sorted.Perm (before key items cursor))
    (hsorted : NewestFirst key sorted)
    (holdest : (sorted.take size).getLast? = some oldest) :
    (before key items (some (floor (key oldest)))).length <
      (before key items cursor).length := by
  have hnonempty : 0 < sorted.length := List.length_pos_of_mem
    (List.mem_of_mem_take (List.mem_of_getLast? holdest))
  have hle := List.length_filter_le
    (fun item => decide (key item < floor (key oldest))) (sorted.drop size)
  rw [(perm_before_next hfloor hperm hsorted holdest).length_eq,
    List.length_drop] at hle
  rw [← hperm.length_eq]
  omega

end Next

/-! ## What a client sees -/

namespace Visits

variable {items visited : List α} {cursor : Option ℕ}

/-- No item is seen twice. -/
theorem subperm (hfloor : ∀ time, floor time ≤ time)
    (h : Visits key floor size items cursor visited) :
    visited.Subperm (before key items cursor) := by
  induction h with
  | stop => exact List.nil_subperm
  | next hpage holdest _ ih =>
      obtain ⟨sorted, hperm, hsorted, rfl⟩ := hpage
      have hnext := perm_before_next hfloor hperm hsorted holdest
      have hrest := (ih.trans hnext.symm.subperm).trans
        List.filter_sublist.subperm
      have hboth := ((List.Subperm.refl (sorted.take size)).append hrest)
      rw [List.take_append_drop] at hboth
      exact hboth.trans hperm.subperm

theorem newestFirst (hfloor : ∀ time, floor time ≤ time)
    (h : Visits key floor size items cursor visited) :
    NewestFirst key visited := by
  induction h with
  | stop => exact List.Pairwise.nil
  | @next cursor page rest oldest hpage holdest hrest ih =>
      obtain ⟨sorted, hperm, hsorted, rfl⟩ := hpage
      have htaken := hsorted.sublist (List.take_sublist size sorted)
      refine List.pairwise_append.mpr ⟨htaken, ih, fun item hitem other hother => ?_⟩
      have hbelow := (List.mem_filter.mp ((hrest.subperm hfloor).subset hother)).2
      have hle := htaken.oldest_le holdest hitem
      have hle' := hfloor (key oldest)
      simp only [Option.all_some, decide_eq_true_eq] at hbelow
      omega

/-- All items below the cursor are seen exactly when their keys are apart. -/
theorem length_eq_iff (hsize : 0 < size) (hfloor : ∀ time, floor time ≤ time)
    (h : Visits key floor size items cursor visited) {sorted : List α}
    (hperm : sorted.Perm (before key items cursor))
    (hsorted : NewestFirst key sorted) :
    visited.length = sorted.length ↔ Apart floor size (sorted.map key) := by
  induction h generalizing sorted with
  | @stop cursor hpage =>
      obtain ⟨other, hother, -, hempty⟩ := hpage
      have hnil : other = [] := by
        rcases List.take_eq_nil_iff.mp hempty.symm with hzero | hnil
        · omega
        · exact hnil
      subst hnil
      obtain rfl := (hperm.trans hother.symm).eq_nil
      simp [Apart]
  | @next cursor page rest oldest hpage holdest hrest ih =>
      obtain ⟨other, hother, hother', rfl⟩ := hpage
      rw [hsorted.keys_eq hother' (hperm.trans hother.symm),
        (hperm.trans hother.symm).length_eq, apart_iff hsize,
        ← forall_drop_lt_iff hsize hother' holdest]
      have hnext := perm_before_next hfloor hother hother' holdest
      have hle : rest.length ≤ ((other.drop size).filter fun item =>
          key item < floor (key oldest)).length :=
        hnext.length_eq ▸ (hrest.subperm hfloor).length_le
      have hsplit : (other.take size).length + (other.drop size).length =
          other.length := by
        rw [← List.length_append, List.take_append_drop]
      rw [List.length_append, ← List.map_drop]
      constructor
      · intro hlength
        have hkept : ((other.drop size).filter fun item =>
            key item < floor (key oldest)).length =
              (other.drop size).length := by
          have hfilter := List.length_filter_le
            (fun item => decide (key item < floor (key oldest)))
            (other.drop size)
          omega
        have hall := List.length_filter_eq_length_iff.mp hkept
        simp only [decide_eq_true_eq] at hall
        refine ⟨hall, ?_⟩
        rw [List.filter_eq_self.mpr (by simpa using hall)] at hnext
        refine (ih hnext (hother'.sublist (List.drop_sublist _ _))).mp ?_
        omega
      · rintro ⟨hall, hapart⟩
        rw [List.filter_eq_self.mpr (by simpa using hall)] at hnext
        have hrest := (ih hnext
          (hother'.sublist (List.drop_sublist _ _))).mpr hapart
        omega

/-- The client sees every item once exactly when their keys are apart. -/
theorem perm_iff (hsize : 0 < size) (hfloor : ∀ time, floor time ≤ time)
    (h : Visits key floor size items cursor visited) {sorted : List α}
    (hperm : sorted.Perm (before key items cursor))
    (hsorted : NewestFirst key sorted) :
    visited.Perm (before key items cursor) ↔
      Apart floor size (sorted.map key) := by
  rw [← h.length_eq_iff hsize hfloor hperm hsorted]
  constructor
  · exact fun hvisited => (hvisited.trans hperm.symm).length_eq
  · intro hlength
    refine (h.subperm hfloor).perm_of_length_le (Nat.le_of_eq ?_)
    exact hperm.length_eq.symm.trans hlength.symm

end Visits

end CursorPaging
