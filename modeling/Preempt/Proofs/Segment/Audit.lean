import Preempt.Proofs.Segment.Ledger
import Preempt.Proofs.Segment.Visiting

/-!
What an audit finds out about a pool that is shared out. The walks of the audit are the chains of
the owners, so it passes exactly if no segment is lost (`Sharing.audit_iff`).
-/

namespace Preempt

variable {size n : Nat}

namespace Pool

/-- An audit passes if the chains that it visits hold every segment. -/
theorem audit_eq {p : Pool size n} {ω : Type} {suspended : List Link} (owners : List ω)
    {root : ω → Link} {share : ω → List (Fin size)} (starts : owners.map root =
      p.freeHead :: (p.links.toList ++ suspended))
    (path : ∀ o, Path p (root o) (share o)) (once : (owners.flatMap share).Nodup) :
    p.audit suspended = decide (∀ i, i ∈ owners.flatMap share) := by
  have paths : List.Forall₂ (Path p) (p.freeHead :: (p.links.toList ++ suspended))
      (owners.map share) := by
    rw [← starts, List.forall₂_map_left_iff, List.forall₂_map_right_iff]
    exact List.forall₂_same.mpr fun o _ => path o
  rw [List.flatMap_def] at once ⊢
  rw [Bool.eq_iff_iff, decide_eq_true_iff, audit_iff_walks]
  constructor
  · rintro ⟨walks, walked, each⟩
    have determined : Relator.RightUnique (Path p) := fun _ _ _ => Path.unique
    obtain rfl := List.right_unique_forall₂' determined walked paths
    exact ((count_flatten_eq_one_iff _).mp each).2
  · exact fun all => ⟨_, paths, (count_flatten_eq_one_iff _).mpr ⟨once, all⟩⟩

end Pool

/-- The free list, the cores and some tasks. -/
def Owner.listed (n : Nat) (tasks : List TaskId) : List (Owner n) :=
  .free :: ((List.finRange n).map .live ++ tasks.map .saved)

namespace Owner

variable {tasks : List TaskId}

theorem nodup_listed (once : tasks.Nodup) : (listed n tasks).Nodup := by
  refine List.nodup_cons.mpr ⟨by simp, List.nodup_append'.mpr ⟨?_, ?_, ?_⟩⟩
  · exact (List.nodup_finRange n).map fun c d same => by cases same; rfl
  · exact once.map fun task other same => by cases same; rfl
  · intro o live saved
    simp only [List.mem_map] at live saved
    obtain ⟨c, _, rfl⟩ := live
    obtain ⟨task, _, same⟩ := saved
    cases same

theorem map_root_listed (p : Pool size n) (heads : TaskId → Link) :
    (listed n tasks).map (root p heads) =
      p.freeHead :: (p.links.toList ++ tasks.map heads) := by
  have cores : (List.finRange n).map p.links.get = p.links.toList := by
    apply List.ext_getElem
    · simp
    · intro i bound bound'
      simp [Vector.get]
  simp [listed, ← cores, Function.comp_def]

end Owner

/-- Over a pool that is shared out an audit passes exactly if no segment is lost. -/
theorem Pool.Sharing.audit_iff {p : Pool size n} {heads : TaskId → Link}
    {share : Owner n → List (Fin size)} {spills : Owner n → List Spill} {lost : List (Fin size)}
    (shared : p.Sharing heads share spills lost) {tasks : List TaskId} (once : tasks.Nodup)
    (all : ∀ task, share (.saved task) ≠ [] → task ∈ tasks) :
    p.audit (tasks.map heads) = true ↔ lost = [] := by
  have listed {o : Owner n} {i : Fin size} (owns : i ∈ share o) : o ∈ Owner.listed n tasks := by
    cases o with
    | free => simp [Owner.listed]
    | live c => simp [Owner.listed]
    | saved task => simpa [Owner.listed] using all task (List.ne_nil_of_mem owns)
  have apart : ((Owner.listed n tasks).flatMap share).Nodup := by
    refine List.nodup_flatMap.mpr ⟨fun o _ => shared.parts.nodup o, ?_⟩
    exact (Owner.nodup_listed once).imp fun {o o'} differ i here there =>
      differ (shared.parts.owner_eq here there)
  rw [audit_eq _ (Owner.map_root_listed p heads) shared.path apart, decide_eq_true_eq]
  constructor
  · intro covered
    refine List.eq_nil_iff_forall_not_mem.mpr fun i gone => ?_
    obtain ⟨o, _, owns⟩ := List.mem_flatMap.mp (covered i)
    exact shared.parts.absent i gone o owns
  · rintro rfl i
    obtain ⟨o, owns, _⟩ := shared.parts.unique i List.not_mem_nil
    exact List.mem_flatMap.mpr ⟨o, listed owns, owns⟩

/-- The flags of the heads do not count. -/
theorem Pool.Sharing.addresses {p : Pool size n} {heads : TaskId → Link}
    {share : Owner n → List (Fin size)} {spills : Owner n → List Spill} {lost : List (Fin size)}
    (shared : p.Sharing heads share spills lost) :
    p.Sharing (fun task => (heads task).address) share spills lost where
  parts := shared.parts
  path o := by
    cases o with
    | free => exact shared.path .free
    | live c => exact shared.path (.live c)
    | saved task => exact (shared.path (.saved task)).relabel rfl
  fits := shared.fits
  inUse := shared.inUse

/-- An audit of the heads that the suspended tasks have saved passes exactly if no segment is
lost. -/
theorem Kept.audit_iff {p : Pool size n} {ts : Tasks} {L : Ledger n} {lost : List (Fin size)}
    (kept : Kept p ts L lost) :
    ∃ heads share, p.Sharing heads share L.spills lost ∧
      (∀ task, L.saved task ≠ none → Tasks.savedHead task ts = .ok (heads task) ts) ∧
      ∀ tasks : List TaskId, tasks.Nodup → (∀ task, task ∈ tasks ↔ L.saved task ≠ none) →
        (p.audit (tasks.map heads) = true ↔ lost = []) := by
  obtain ⟨roots, share, shared, parked⟩ := kept
  refine ⟨fun task => (roots task).address, share, shared.addresses, fun task suspended => ?_,
    fun tasks once all => ?_⟩
  · obtain ⟨s, is⟩ := Option.ne_none_iff_exists'.mp suspended
    exact (parked task s is).savedHead_run
  · refine shared.addresses.audit_iff once fun task owns => (all task).mpr fun awake => owns ?_
    exact share_eq_nil shared (by simp) (by simp [Ledger.spills, awake])

end Preempt
