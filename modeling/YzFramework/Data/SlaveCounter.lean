import YzFramework.Library.Run
import YzFramework.Library.Word
import Mathlib.Data.Fintype.Card
import Mathlib.Data.Finset.Card

/-! The slave branch of `DynamicDataSource.determineTargetDataSource`, shared by
threads whose steps on the counter are atomic one by one. A thread that ends
leaves its slot to a later one, so there are as many slots as threads at a time. -/
namespace YzFramework.Data.SlaveCounter
open Library.Run

/-- Where a thread stands in the slave branch, and the `count` it holds there. -/
inductive Phase
  | idle
  | counted (count : BitVec 32)
  | resetting (count : BitVec 32)
  | choosing (count : BitVec 32)
deriving DecidableEq

structure State (T : ℕ) where
  counter : BitVec 32 := 0
  phases : Fin T → Phase := fun _ => .idle
  indices : List ℤ := []

variable {T : ℕ}

def moved (state : State T) (thread : Fin T) (phase : Phase) : State T :=
  {state with phases := Function.update state.phases thread phase}

/-- One atomic step of a thread: `incrementAndGet`, the comparison, `set(0)`, and
the remainder, which is Java's and takes the sign of the count. -/
def step (n : ℕ) (state : State T) (thread : Fin T) : State T :=
  match state.phases thread with
  | .idle =>
    let count := state.counter+1
    {moved state thread (.counted count) with counter := count}
  | .counted count =>
    moved state thread (if 1000000 < count.toInt then .resetting count else .choosing count)
  | .resetting count => {moved state thread (.choosing count) with counter := 0}
  | .choosing count =>
    {moved state thread .idle with indices := count.toInt.tmod n::state.indices}

/-- A pass of one thread, of three steps or four, ends with the remainder of its count. -/
theorem pass_appends (n : ℕ) (state : State T) (thread : Fin T) (idle : state.phases thread = .idle) :
    ∃ pass : List (Fin T), (∀ mover ∈ pass, mover = thread) ∧
      (final (step n) state pass).indices = (state.counter+1).toInt.tmod n::state.indices ∧
      (final (step n) state pass).phases thread = .idle := by
  by_cases past : 1000000 < (state.counter+1).toInt
  · refine ⟨[thread,thread,thread,thread],by simp,?_⟩
    simp only [final_cons,final_nil,step,moved,idle,Function.update_self,if_pos past,and_self]
  · refine ⟨[thread,thread,thread],by simp,?_⟩
    simp only [final_cons,final_nil,step,moved,idle,Function.update_self,if_neg past,and_self]

def Phase.Late : Phase → Prop
  | .counted count => 1000000 < count.toNat
  | .resetting _ => True
  | _ => False

instance : DecidablePred Phase.Late := fun phase => by
  cases phase <;> unfold Phase.Late <;> infer_instance

def Phase.count : Phase → ℕ
  | .idle => 0
  | .counted count => count.toNat
  | .resetting count => count.toNat
  | .choosing count => count.toNat

def late (phases : Fin T → Phase) : Finset (Fin T) := {thread | (phases thread).Late}

/-- Only late threads take the counter past the limit, each by one. -/
structure Bounded (n : ℕ) (state : State T) : Prop where
  counter : state.counter.toNat ≤ 1000000 + (late state.phases).card
  counts : ∀ thread, (state.phases thread).count ≤ 1000000 + T
  indices : ∀ index ∈ state.indices, 0 ≤ index ∧ index < n

theorem late_card (phases : Fin T → Phase) : (late phases).card ≤ T := by
  simpa using Finset.card_le_univ (late phases)

theorem late_space (phases : Fin T → Phase) (thread : Fin T) (early : ¬ (phases thread).Late) :
    (late phases).card < T := by
  have proper : late phases ⊂ Finset.univ := by
    refine Finset.ssubset_univ_iff.mpr fun all => early ?_
    have inside : thread ∈ late phases := by simp [all]
    simpa [late] using inside
  simpa using Finset.card_lt_card proper

theorem late_moved (phases : Fin T → Phase) (thread : Fin T) (phase : Phase)
    (same : phase.Late ↔ (phases thread).Late) :
    late (Function.update phases thread phase) = late phases := by
  ext other
  by_cases here : other = thread
  · subst here
    simp [late,same]
  · simp [late,here]

theorem late_joined (phases : Fin T → Phase) (thread : Fin T) (phase : Phase)
    (before : ¬ (phases thread).Late) (after : phase.Late) :
    (late (Function.update phases thread phase)).card = (late phases).card+1 := by
  have joined : late (Function.update phases thread phase) = insert thread (late phases) := by
    ext other
    by_cases here : other = thread
    · subst here
      simp [late,after]
    · simp [late,here]
  rw [joined,Finset.card_insert_of_notMem (by simpa [late] using before)]

theorem counts_moved (phases : Fin T → Phase) (thread : Fin T) (phase : Phase)
    (bounded : ∀ other, (phases other).count ≤ 1000000 + T) (small : phase.count ≤ 1000000 + T)
    (other : Fin T) : (Function.update phases thread phase other).count ≤ 1000000 + T := by
  by_cases here : other = thread
  · subst here
    simpa using small
  · simpa [here] using bounded other

theorem step_bounded (n : ℕ) (positive : 1 ≤ n) (few : T < 2^31-1000001) (state : State T)
    (thread : Fin T) (bounded : Bounded n state) : Bounded n (step n state thread) := by
  obtain ⟨counter,counts,indices⟩ := bounded
  have room := late_card state.phases
  have held := counts thread
  unfold step
  cases at_ : state.phases thread with
  | idle =>
    have early : ¬ (state.phases thread).Late := by simp [at_,Phase.Late]
    have next : (state.counter+1).toNat = state.counter.toNat+1 := by
      rw [BitVec.toNat_add]
      exact Nat.mod_eq_of_lt (by simp; omega)
    have space := late_space state.phases thread early
    refine ⟨?_,counts_moved _ thread _ counts ?_,indices⟩
    · dsimp only [moved]
      by_cases past : (Phase.counted (state.counter+1)).Late
      · rw [late_joined state.phases thread _ early past]
        omega
      · dsimp only [Phase.Late] at past
        omega
    · dsimp only [Phase.count]
      omega
  | counted count =>
    rw [at_] at held
    dsimp only [Phase.count] at held
    have signed : count.toInt = count.toNat := Library.Word.toInt_of_small count (by omega)
    refine ⟨?_,counts_moved _ thread _ counts ?_,indices⟩
    · dsimp only [moved]
      rw [late_moved]
      · exact counter
      · rw [at_]
        split
        next past => simp [Phase.Late]; omega
        next within => simp [Phase.Late]; omega
    · split <;> exact held
  | resetting count =>
    rw [at_] at held
    exact ⟨by simp,counts_moved _ thread _ counts held,indices⟩
  | choosing count =>
    rw [at_] at held
    dsimp only [Phase.count] at held
    have signed : count.toInt = count.toNat := Library.Word.toInt_of_small count (by omega)
    refine ⟨?_,counts_moved _ thread _ counts (by simp [Phase.count]),?_⟩
    · dsimp only [moved]
      rw [late_moved state.phases thread .idle (by simp [at_,Phase.Late])]
      exact counter
    · intro index member
      rcases List.mem_cons.mp member with rfl | earlier
      · rw [signed]
        exact ⟨Int.tmod_nonneg _ (by omega),Int.tmod_lt_of_pos _ (by omega)⟩
      · exact indices index earlier

theorem initial_bounded (n : ℕ) : Bounded n ({} : State T) :=
  ⟨by simp,fun _ => by simp [Phase.count],by simp⟩

theorem run_bounded (n : ℕ) (positive : 1 ≤ n) (few : T < 2^31-1000001) (schedule : List (Fin T)) :
    Bounded n (final (step n) {} schedule) :=
  final_always (step_bounded n positive few) {} schedule (initial_bounded n)

/-- The counter never turns negative and every slave index is in range. -/
theorem run_in_range (n : ℕ) (positive : 1 ≤ n) (T : ℕ) (few : T < 2^31-1000001)
    (schedule : List (Fin T)) :
    0 ≤ (final (step n) ({} : State T) schedule).counter.toInt ∧
    ∀ index ∈ (final (step n) ({} : State T) schedule).indices, 0 ≤ index ∧ index < n := by
  have bounded := run_bounded n positive few schedule
  have room := late_card (final (step n) ({} : State T) schedule).phases
  have small := bounded.counter
  refine ⟨?_,bounded.indices⟩
  rw [Library.Word.toInt_of_small _ (by omega)]
  exact Int.natCast_nonneg _

theorem run_in_range_two_threads :
    let reached := final (step 3) ({} : State 2) [0,1,1,0,0,1]
    reached.indices = [2,1] ∧ 0 ≤ reached.counter.toInt ∧ ∀ index ∈ reached.indices, 0 ≤ index ∧ index < 3 := by
  refine ⟨by decide,?_⟩
  exact run_in_range 3 (by decide) 2 (by decide) [0,1,1,0,0,1]

end YzFramework.Data.SlaveCounter
