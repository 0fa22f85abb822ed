import DraconGuard.Guard.PidMaps

/-!
# The nice limiters' books on one process

What each loop of a pass makes of all that is kept under one pid (`NiceBook`). A loop over samples
writes in the books of those it is over; a release and a prune write in the book of their entry.
-/

namespace DraconGuard

namespace NiceBook

/-- Every count has its entry. -/
def CountsHeld (b : NiceBook) : Prop := ∀ k, b.Counted k → (b.entry k).isSome = true

/-- A timer has its entry. -/
def TimerHeld (b : NiceBook) (k : NiceLimiterKind) : Prop :=
  (b.cooled k).isSome = true → (b.entry k).isSome = true

/-- What was kept in order stays so. -/
structure Carried (b b' : NiceBook) : Prop where
  counts : b.CountsHeld → b'.CountsHeld
  timer : ∀ k, b.TimerHeld k → b'.TimerHeld k
  heavy : b.heavy = none → b'.heavy = none

theorem Carried.refl (b : NiceBook) : Carried b b := ⟨id, fun _ => id, id⟩

theorem Carried.of_eq {b b' : NiceBook} (h : b' = b) : Carried b b' := h ▸ Carried.refl b

theorem Carried.trans {b₁ b₂ b₃ : NiceBook} (h : Carried b₁ b₂) (h' : Carried b₂ b₃) :
    Carried b₁ b₃ :=
  ⟨h'.counts ∘ h.counts, fun k => h'.timer k ∘ h.timer k, h'.heavy ∘ h.heavy⟩

/-- `remove_legacy_renice` / `remove_memory_renice`. -/
def remove (b : NiceBook) (k : NiceLimiterKind) : NiceBook :=
  { b with entry := Function.update b.entry k none, cooled := Function.update b.cooled k none }

def count (b : NiceBook) (k : NiceLimiterKind) (u f : Option Nat) : NiceBook :=
  { b with unavailable := Function.update b.unavailable k u
           failures := Function.update b.failures k f }

def time (b : NiceBook) (k : NiceLimiterKind) (c : Option Time) : NiceBook :=
  { b with cooled := Function.update b.cooled k c }

/-- `drop_stale_nice_adjustments`. -/
def fresh (b : NiceBook) (current : ProcessIdentity) : NiceBook :=
  { b with
    entry := fun k => (b.entry k).filter fun e => sameProcessIncarnation e.identity current
    cooled := fun k =>
      if (b.entry k).any fun e => !sameProcessIncarnation e.identity current then none
      else b.cooled k }

variable {b : NiceBook} {k : NiceLimiterKind} {current : ProcessIdentity}

theorem timer_remove {k' : NiceLimiterKind} (h : b.TimerHeld k') : (b.remove k).TimerHeld k' := by
  intro hcooled
  by_cases hk : k' = k
  · subst hk
    simp [remove] at hcooled
  · simp only [remove, Function.update_of_ne hk] at hcooled ⊢
    exact h hcooled

theorem Carried.remove (h : ¬ b.Counted k) : Carried b (b.remove k) where
  counts hb k' hcounted := by
    by_cases hk : k' = k
    · exact absurd (hk ▸ hcounted) h
    · simp only [NiceBook.remove, Function.update_of_ne hk]
      exact hb k' hcounted
  timer _ := timer_remove
  heavy := id

/-- A timer is set for an entry. -/
theorem Carried.time {c : Option Time} (h : c.isSome = true →
    (b.cooled k).isSome = true ∨ (b.entry k).isSome = true) : Carried b (b.time k c) where
  counts := id
  timer k' hb hcooled := by
    by_cases hk : k' = k
    · subst hk
      simp only [NiceBook.time, Function.update_self] at hcooled
      exact (h hcooled).elim hb id
    · simp only [NiceBook.time, Function.update_of_ne hk] at hcooled
      exact hb hcooled
  heavy := id

/-- A limiter whose entry is there may count. -/
theorem Carried.count {u f : Option Nat} (h : (b.entry k).isSome = true) :
    Carried b (b.count k u f) where
  counts hb k' hcounted := by
    by_cases hk : k' = k
    · exact hk ▸ h
    · refine hb k' ?_
      simpa only [NiceBook.count, Counted, Function.update_of_ne hk] using hcounted
  timer _ := id
  heavy := id

/-- Its counts go with the entry. -/
theorem Carried.settle {u f : Option Nat} (hu : u = none) (hf : f = none) :
    Carried b ((b.count k u f).remove k) where
  counts hb k' hcounted := by
    by_cases hk : k' = k
    · subst hk
      simp [NiceBook.remove, NiceBook.count, Counted, hu, hf] at hcounted
    · simp only [NiceBook.remove, NiceBook.count, Counted, Function.update_of_ne hk] at hcounted ⊢
      exact hb k' hcounted
  timer _ h := timer_remove h
  heavy := id

theorem timer_fresh {k' : NiceLimiterKind} (h : b.TimerHeld k') :
    (b.fresh current).TimerHeld k' := by
  intro hcooled
  unfold TimerHeld fresh at *
  cases hentry : b.entry k' with
  | none => simp_all
  | some e => cases hsame : sameProcessIncarnation e.identity current <;> simp_all [Option.filter]

theorem eq_other_of_ne {k k' : NiceLimiterKind} (h : k' ≠ k) : k' = k.other := by
  cases k <;> cases k' <;> first | rfl | exact absurd rfl h

section Fresh

variable (hother : ∀ o, b.entry k.other = some o →
  sameProcessIncarnation o.identity current = false → ¬ b.Counted k.other)

include hother

/-- Only a stale entry that is not counted leaves the other limiter. -/
theorem fresh_held (hb : b.CountsHeld) (hcounted : b.Counted k.other) :
    ((b.fresh current).entry k.other).isSome = true := by
  obtain ⟨o, ho⟩ := Option.isSome_iff_exists.mp (hb k.other hcounted)
  cases hsame : sameProcessIncarnation o.identity current with
  | false => exact absurd hcounted (hother o ho hsame)
  | true => simp [fresh, ho, hsame, Option.filter]

theorem Carried.settleFresh : Carried b (((b.fresh current).count k none none).remove k) where
  counts hb k' hcounted := by
    by_cases hk : k' = k
    · subst hk
      simp [NiceBook.remove, NiceBook.count, Counted] at hcounted
    · simp only [NiceBook.remove, NiceBook.count, Counted, Function.update_of_ne hk] at hcounted ⊢
      obtain rfl := eq_other_of_ne hk
      exact fresh_held hother hb hcounted
  timer _ h := timer_remove (timer_fresh h)
  heavy := id

theorem Carried.countFresh {u f : Option Nat}
    (hheld : ((b.fresh current).entry k).isSome = true) :
    Carried b ((b.fresh current).count k u f) where
  counts hb k' hcounted := by
    by_cases hk : k' = k
    · exact hk ▸ hheld
    · simp only [NiceBook.count, Counted, Function.update_of_ne hk] at hcounted ⊢
      obtain rfl := eq_other_of_ne hk
      exact fresh_held hother hb hcounted
  timer _ h := timer_fresh h
  heavy := id

end Fresh

end NiceBook

namespace NiceState

/-- The book on a pid, next to the process that has it. -/
def book (s : NiceState) (proc : Option Proc) (pid : Pid) : NiceBook where
  proc := proc
  entry k := s.entry k pid
  cooled k := (s.limiter k).cooledSince.lookup pid
  unavailable k := (s.limiter k).identityUnavailableAttempts.lookup pid
  failures k := (s.limiter k).unreniceFailures.lookup pid
  heavy := s.heavySince.lookup pid

variable {s : NiceState} {proc : Option Proc} {k : NiceLimiterKind} {pid q : Pid}

theorem book_removeEntry_ne (h : q ≠ pid) :
    (s.removeEntry k pid).book proc q = s.book proc q := by
  cases k <;> ext k' : 2 <;> first | rfl | skip
  all_goals cases k' <;> simp [book, entry, removeEntry, limiter, setLimiter, h]

theorem book_insertEntry_ne (h : q ≠ pid) (e : ReniceState) :
    (s.insertEntry k pid e).book proc q = s.book proc q := by
  cases k <;> ext k' : 2 <;> first | rfl | skip
  all_goals cases k' <;> simp [book, entry, insertEntry, limiter, setLimiter, h]

theorem book_dropStale_ne (h : q ≠ pid) (current : ProcessIdentity) :
    (dropStaleNiceAdjustments s pid current).book proc q = s.book proc q := by
  have hone : ∀ (s : NiceState) k,
      (dropStaleEntry s k pid current).book proc q = s.book proc q := by
    intro s k
    unfold dropStaleEntry
    split
    · exact book_removeEntry_ne h
    · rfl
  exact (hone _ .memory).trans (hone s .legacy)

theorem book_setCounters_ne {c : FinMap Pid Time} {u f : FinMap Pid Nat}
    (hc : c.lookup q = (s.limiter k).cooledSince.lookup q)
    (hu : u.lookup q = (s.limiter k).identityUnavailableAttempts.lookup q)
    (hf : f.lookup q = (s.limiter k).unreniceFailures.lookup q) :
    (s.setCounters k c u f).book proc q = s.book proc q := by
  cases k <;> ext k' : 2 <;> first | rfl | skip
  all_goals cases k' <;> first | rfl | exact hc | exact hu | exact hf

/-! ### At its own pid -/

theorem book_removeEntry_self :
    (s.removeEntry k pid).book proc pid = (s.book proc pid).remove k := by
  cases k <;> ext k' : 2 <;> first | rfl | skip
  all_goals cases k' <;>
    simp [book, NiceBook.remove, entry, removeEntry, limiter, setLimiter, Function.update]

theorem book_setCounters_self {c : FinMap Pid Time} {u f : FinMap Pid Nat}
    (hc : c.lookup pid = (s.limiter k).cooledSince.lookup pid) :
    (s.setCounters k c u f).book proc pid =
      (s.book proc pid).count k (u.lookup pid) (f.lookup pid) := by
  cases k <;> ext k' : 2 <;> first | rfl | skip
  all_goals cases k' <;>
    simp_all [book, NiceBook.count, entry, setCounters, limiter, setLimiter, Function.update]

theorem book_dropStale_self (current : ProcessIdentity) :
    (dropStaleNiceAdjustments s pid current).book proc pid = (s.book proc pid).fresh current := by
  ext k' : 2
  · rfl
  · exact (entry_dropStale s k' pid pid current).trans (if_pos rfl)
  · unfold dropStaleNiceAdjustments dropStaleEntry
    cases k' <;> split_ifs <;>
      simp_all [book, NiceBook.fresh, entry, removeEntry, limiter, setLimiter]
  all_goals
    unfold dropStaleNiceAdjustments dropStaleEntry
    split <;> split
  all_goals
    try cases k'
    all_goals rfl

/-- Only the timers of a limiter change. -/
theorem book_setTimers (c : FinMap Pid Time) :
    (s.setCounters k c (s.limiter k).identityUnavailableAttempts
      (s.limiter k).unreniceFailures).book proc pid = (s.book proc pid).time k (c.lookup pid) := by
  cases k <;> ext k' : 2 <;> first | rfl | skip
  all_goals cases k' <;>
    simp_all [book, NiceBook.time, entry, setCounters, limiter, setLimiter, Function.update]

end NiceState

/-! ## A release -/

section Release

variable {k : NiceLimiterKind} {env : NiceEnv} {w : NiceWorld} {pid q : Pid}

theorem NiceWorld.book_eq (w : NiceWorld) (pid : Pid) :
    w.book pid = w.nice.book (w.table pid) pid := rfl

theorem book_unrenice_ne (h : q ≠ pid) : (unrenice k env w pid).book q = w.book q := by
  have htable : ∀ v, (w.table.renice pid v) q = w.table q := fun v => by
    rw [ProcTable.renice_apply, if_neg h]
  have herase : ∀ {β : Type} (m : FinMap Pid β), (m.erase pid).lookup q = m.lookup q :=
    fun m => AList.lookup_erase_ne h
  have hinsert : ∀ (m : FinMap Pid Nat) n, (m.insert pid n).lookup q = m.lookup q :=
    fun m n => AList.lookup_insert_ne h
  simp only [NiceWorld.book_eq]
  unfold unrenice
  split
  · rfl
  · dsimp only
    split
    · exact NiceState.book_removeEntry_ne h
    · exact NiceState.book_removeEntry_ne h
    · split
      · exact (NiceState.book_removeEntry_ne h).trans
          (NiceState.book_setCounters_ne rfl (herase _) rfl)
      · exact NiceState.book_setCounters_ne rfl (hinsert _ _) rfl
    · have hdrop := fun e : ProcessIdentity =>
        @NiceState.book_dropStale_ne w.nice (w.table q) pid q h e
      split
      · dsimp only
        rw [htable]
        exact (NiceState.book_removeEntry_ne h).trans
          ((NiceState.book_setCounters_ne rfl (herase _) (herase _)).trans (hdrop _))
      · split
        · exact (NiceState.book_removeEntry_ne h).trans
            ((NiceState.book_setCounters_ne rfl (herase _) (herase _)).trans (hdrop _))
        · exact (NiceState.book_setCounters_ne rfl (herase _) (hinsert _ _)).trans (hdrop _)

/-- **A release in its own book.** -/
theorem book_unrenice_carried (h : (w.book pid).LeavesNoCount k env pid) :
    (w.book pid).Carried ((unrenice k env w pid).book pid) := by
  simp only [NiceWorld.book_eq] at h ⊢
  unfold unrenice
  cases hentry : w.nice.entry k pid with
  | none => exact .refl _
  | some e =>
    have hfound := h e hentry
    have hheld : ((w.nice.book (w.table pid) pid).entry k).isSome = true := by
      change (w.nice.entry k pid).isSome = true
      rw [hentry]
      rfl
    dsimp only
    cases hstatus : processIdentityStatus w.table (env.releaseReadable pid) pid e.identity with
    | gone | mismatch =>
      replace hfound : ¬ (w.nice.book (w.table pid) pid).Counted k := by
        rwa [show processIdentityStatus (fun _ => (w.nice.book (w.table pid) pid).proc) _ _ _ = _
          from hstatus] at hfound
      dsimp only
      rw [NiceState.book_removeEntry_self]
      exact .remove hfound
    | unavailable =>
      rw [show processIdentityStatus (fun _ => (w.nice.book (w.table pid) pid).proc) _ _ _ = _
        from hstatus] at hfound
      dsimp only at hfound ⊢
      split
      · next hlimit =>
        rw [NiceState.book_removeEntry_self, NiceState.book_setCounters_self rfl]
        exact .settle (AList.lookup_erase _ _) (hfound hlimit)
      · rw [NiceState.book_setCounters_self rfl]
        exact .count hheld
    | matching =>
      rw [show processIdentityStatus (fun _ => (w.nice.book (w.table pid) pid).proc) _ _ _ = _
        from hstatus] at hfound
      obtain ⟨hknown, hother⟩ := hfound
      dsimp only
      split
      · rw [NiceState.book_removeEntry_self, NiceState.book_setCounters_self rfl,
          AList.lookup_erase, AList.lookup_erase, NiceState.book_dropStale_self]
        have hsettled := NiceBook.Carried.settleFresh hother
        exact ⟨hsettled.counts, hsettled.timer, hsettled.heavy⟩
      · next hrefused =>
        split
        · rw [NiceState.book_removeEntry_self, NiceState.book_setCounters_self rfl,
            AList.lookup_erase, AList.lookup_erase, NiceState.book_dropStale_self]
          exact .settleFresh hother
        · rw [NiceState.book_setCounters_self rfl, NiceState.book_dropStale_self]
          refine .countFresh hother ?_
          have hsame : sameProcessIncarnation e.identity e.identity = true := by
            simp [sameProcessIncarnation, hknown.resolve_right hrefused]
          change ((w.nice.entry k pid).filter _).isSome = true
          rw [hentry, Option.filter, if_pos hsame]
          rfl

/-! ### The release of a limiter -/

/-- What is due is due once. -/
theorem due_sublist (busy : Pid → Bool) (now : Time) (dur : Nat) (pids : List Pid)
    (acc : FinMap Pid Time × List Pid) :
    ∃ due, due.Sublist pids ∧ (pids.foldl (coolStep busy now dur) acc).2 = acc.2 ++ due := by
  induction pids generalizing acc with
  | nil => exact ⟨[], .slnil, (List.append_nil _).symm⟩
  | cons pid pids ih =>
    obtain ⟨due, hdue, heq⟩ := ih (coolStep busy now dur acc pid)
    rw [List.foldl_cons, heq]
    unfold coolStep
    split
    · exact ⟨due, hdue.cons pid, rfl⟩
    · dsimp only
      split
      · exact ⟨pid :: due, hdue.cons_cons pid, by rw [List.append_assoc]; rfl⟩
      · exact ⟨due, hdue.cons pid, rfl⟩

theorem startTimers_nodup (busy : Pid → Bool) (dur : Nat) (now : Time) :
    (startTimers k busy dur now w).2.Nodup := by
  obtain ⟨due, hdue, heq⟩ := due_sublist busy now dur (w.nice.limiter k).renicedPids.keys
    ((w.nice.limiter k).cooledSince, [])
  have hnodup := (AList.keys_nodup (w.nice.limiter k).renicedPids).sublist hdue
  rwa [show (startTimers k busy dur now w).2 = due from heq]

/-- A loop of `coolStep` sets a timer only for those it is over. -/
theorem cooled_or (busy : Pid → Bool) (now : Time) (dur : Nat) (pids : List Pid)
    (acc : FinMap Pid Time × List Pid)
    (hcooled : ((pids.foldl (coolStep busy now dur) acc).1.lookup q).isSome = true) :
    (acc.1.lookup q).isSome = true ∨ q ∈ pids := by
  induction pids generalizing acc with
  | nil => exact Or.inl hcooled
  | cons pid pids ih =>
    rcases ih _ hcooled with hin | hin
    · unfold coolStep at hin
      split at hin
      · rw [FinMap.lookup_erase_eq] at hin
        split at hin
        · cases hin
        · exact Or.inl hin
      · rw [FinMap.lookup_orInsert] at hin
        split at hin
        · next heq => exact Or.inr (heq ▸ List.mem_cons_self)
        · exact Or.inl hin
    · exact Or.inr (List.mem_cons_of_mem pid hin)

/-- The loop that starts the timers. -/
theorem startTimers_carried (busy : Pid → Bool) (dur : Nat) (now : Time) :
    (w.book pid).Carried ((startTimers k busy dur now w).1.book pid) := by
  simp only [NiceWorld.book_eq, startTimers]
  rw [NiceState.book_setTimers]
  refine .time fun hcooled => (cooled_or busy now dur _ _ hcooled).imp id fun hin => ?_
  exact AList.lookup_isSome.mpr hin

/-- **The release of a limiter**: what it leaves has a timer only with its entry. -/
theorem releaseLimiter_carried {busy : Pid → Bool} {dur : Nat}
    (h : pid ∈ (startTimers k busy dur env.now w).2 → (w.book pid).LeavesNoCount k env pid) :
    (w.book pid).Carried ((releaseLimiter k busy dur env w).book pid) ∧
      ((releaseLimiter k busy dur env w).book pid).TimerHeld k := by
  have hstarted : (w.book pid).Carried ((startTimers k busy dur env.now w).1.book pid) :=
    startTimers_carried busy dur env.now
  have hdue : pid ∈ (startTimers k busy dur env.now w).2 →
      ((startTimers k busy dur env.now w).1.book pid).LeavesNoCount k env pid := by
    intro hin
    have hleaves := h hin
    simp only [NiceWorld.book_eq, startTimers] at hleaves ⊢
    rw [NiceState.book_setTimers]
    exact hleaves
  have hnodup : (startTimers k busy dur env.now w).2.Nodup := startTimers_nodup busy dur env.now
  unfold releaseLimiter
  dsimp only
  generalize startTimers k busy dur env.now w = started at hstarted hdue hnodup ⊢
  have hreleased : (w.book pid).Carried
      ((started.2.foldl (unrenice k env) started.1).book pid) := by
    refine hstarted.trans ?_
    by_cases hin : pid ∈ started.2
    · refine Runs.foldl_visit (R := fun a b b' => b.LeavesNoCount k env a → b.Carried b')
        NiceWorld.book id (fun w a q hne => book_unrenice_ne hne) (fun w a => book_unrenice_carried)
        started.2 started.1 ?_ hin (hdue hin)
      rwa [List.map_id]
    · refine .of_eq (Runs.foldl_unvisited NiceWorld.book id
        (fun w a q hne => book_unrenice_ne hne) started.2 started.1 ?_)
      rwa [List.map_id]
  generalize started.2.foldl (unrenice k env) started.1 = released at hreleased ⊢
  have hforgot : (forgetTimers k released).book pid = (released.book pid).time k
      (((released.nice.limiter k).cooledSince.retain fun pid _ =>
        ((released.nice.limiter k).renicedPids.lookup pid).isSome).lookup pid) :=
    NiceState.book_setTimers _
  rw [hforgot, FinMap.lookup_retain]
  refine ⟨hreleased.trans (.time fun hcooled => ?_), fun hcooled => ?_⟩
  · obtain ⟨c, hc⟩ := Option.isSome_iff_exists.mp hcooled
    exact Or.inl (Option.isSome_iff_exists.mpr ⟨c, (Option.filter_eq_some_iff.mp hc).1⟩)
  · simp only [NiceBook.time, Function.update_self] at hcooled
    obtain ⟨c, hc⟩ := Option.isSome_iff_exists.mp hcooled
    exact (Option.filter_eq_some_iff.mp hc).2

/-- **The closing prune** of a limiter. -/
theorem pruneLimiter_carried
    (h : NicePrunes k env w pid → ¬ (w.book pid).Counted k ∧ (w.book pid).cooled k = none) :
    (w.book pid).Carried ((pruneLimiter k env w).book pid) := by
  have hpruned : (pruneLimiter k env w).book pid = { w.book pid with
      entry := Function.update (w.book pid).entry k (((w.book pid).entry k).filter fun e =>
        !(processIdentityStatus w.table (env.pruneReadable pid) pid e.identity).dead) } := by
    have hkept := FinMap.lookup_retain (fun pid (e : ReniceState) =>
      !(processIdentityStatus w.table (env.pruneReadable pid) pid e.identity).dead)
      (w.nice.limiter k).renicedPids pid
    cases k <;> ext k' : 2 <;> first | rfl | skip
    all_goals cases k' <;> first | rfl | exact hkept
  have hheld : ∀ k', ((w.book pid).entry k').isSome = true →
      (k' = k → ¬ NicePrunes k env w pid) →
        (((pruneLimiter k env w).book pid).entry k').isSome = true := by
    intro k' hentry halive
    rw [hpruned]
    by_cases hk : k' = k
    · subst hk
      obtain ⟨e, he⟩ := Option.isSome_iff_exists.mp hentry
      have hdead : (processIdentityStatus w.table (env.pruneReadable pid) pid e.identity).dead =
          false := by
        rw [Bool.eq_false_iff]
        exact fun hdead => halive rfl ⟨e, he, hdead⟩
      simp [he, hdead, Option.filter]
    · simpa only [Function.update_of_ne hk] using hentry
  constructor
  case counts =>
    intro hb k' hcounted
    have hcounted' : (w.book pid).Counted k' := by
      rw [hpruned] at hcounted
      exact hcounted
    exact hheld k' (hb k' hcounted') fun hk hprunes => (h hprunes).1 (hk ▸ hcounted')
  case timer =>
    intro k' hb hcooled
    have hcooled' : ((w.book pid).cooled k').isSome = true := by
      rw [hpruned] at hcooled
      exact hcooled
    refine hheld k' (hb hcooled') fun hk hprunes => ?_
    rw [hk, (h hprunes).2] at hcooled'
    cases hcooled'
  case heavy =>
    rw [hpruned]
    exact id

end Release

/-! ## The loops over samples -/

section Loops

variable {g : NicePolicy} {env : NiceEnv} {w : NiceWorld} {pid : Pid}

theorem book_reniceSample_ne {k : NiceLimiterKind} {base : Int} {mayRestore reniceOk : Bool}
    {p : ProcSample} (h : pid ≠ p.pid) :
    (reniceSample k base mayRestore reniceOk w p).book pid = w.book pid := by
  have hdrop := @NiceState.book_dropStale_ne w.nice (w.table pid) p.pid pid h
    (processSampleIdentity p)
  simp only [NiceWorld.book_eq]
  unfold reniceSample
  dsimp only
  split
  · exact hdrop
  · split
    · dsimp only
      rw [ProcTable.renice_apply, if_neg h]
      exact (NiceState.book_insertEntry_ne h _).trans hdrop
    · exact hdrop

theorem book_memoryStep_ne {p : ProcSample} (h : pid ≠ p.pid) :
    (memoryStep g env w p).book pid = w.book pid := by
  unfold memoryStep
  split
  · rfl
  · exact book_reniceSample_ne h

theorem book_heavyStep_ne {canRestore : Bool} {p : ProcSample} (h : pid ≠ p.pid) :
    (heavyStep g env canRestore w p).book pid = w.book pid := by
  have hnoted : (noteHeavy (env.sampleNow p.pid) w.nice.heavySince p).lookup pid =
      w.nice.heavySince.lookup pid := by
    unfold noteHeavy
    dsimp only
    split <;> exact AList.lookup_insert_ne h
  have hseen : NiceWorld.book { w with nice := { w.nice with
      heavySince := noteHeavy (env.sampleNow p.pid) w.nice.heavySince p } } pid = w.book pid := by
    have hlimiter : ∀ k, NiceState.limiter { w.nice with
        heavySince := noteHeavy (env.sampleNow p.pid) w.nice.heavySince p } k =
          w.nice.limiter k := fun k => by cases k <;> rfl
    simp only [NiceWorld.book, NiceState.entry, hlimiter, hnoted]
  unfold heavyStep
  split
  · rfl
  · dsimp only
    split
    · exact hseen
    · split
      · exact hseen
      · split
        · exact hseen
        · exact (book_reniceSample_ne h).trans hseen

end Loops

end DraconGuard
