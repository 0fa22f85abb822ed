import Mathlib.Tactic.NormNum
import DraconGuard.Guard.PolicyBounds

/-!
# Every policy value in its range

`src/src/policy.rs:1336-1358`: the ranges are applied in one place, a documented zero is left
alone, and the rules are "min/max/clamp against a constant or an already-normalized neighbour", so
a second application does nothing. Each rule has something it settles (`Rule.Settles`); no later
rule takes it back (`settles_normalized`). One threshold gives way: the gates that start before the
action threshold have a floor of 1, so at an action threshold of 1 they are at it, and are
reported each time. And a home directory that a second reading of `~` would change again, as one
that ends in white space, is not what the rule expects.
-/

namespace DraconGuard

open RuleList (run run_append run_of_keeps run_of_split run_of_fixed run_of_quiet)

/-! ## What a rule reads and writes -/

inductive PolicyField where
  | num (knob : Knob)
  | float (knob : FloatKnob)
  | text (knob : TextKnob)
  | list (knob : ListKnob)
  | renice
deriving DecidableEq

namespace Rule

def writes : Rule → PolicyField
  | floor k _ | ceil k _ | band k _ _ | notAbove k _ | notBelow k _ | startBefore k _
  | floorWhenReaping k _ => .num k
  | fband k _ _ => .float k
  | reniceBand _ _ => .renice
  | shorten k _ => .list k
  | fallback k => .text k

/-- What the property a rule settles is about. -/
def reads : Rule → List PolicyField
  | notAbove k other | notBelow k other | startBefore k other => [.num k, .num other]
  | r => [r.writes]

/-- What holds once the rule was applied. -/
def Settles (p : GuardPolicy) : Rule → Prop
  | floor k min => min ≤ p.num k
  | ceil k max => p.num k ≤ max
  | band k min max => min ≤ p.num k ∧ p.num k ≤ max
  | fband k min max => (p.float k).InBand min max
  | reniceBand min max => min ≤ p.reniceValue ∧ p.reniceValue ≤ max
  | notAbove k other => p.num k ≤ p.num other
  | notBelow k other => p.num other ≤ p.num k
  | startBefore k other => p.num k < p.num other ∨ p.num k = 1 ∧ p.num other ≤ 1
  | shorten k max => sortedPrefix (p.list k) max = p.list k
  | floorWhenReaping k min => p.reapStaleDevServers = true → min ≤ p.num k
  | fallback k => Text.trim (p.text k) ≠ []

/-- The bounds are in order, the fields are two. -/
def Proper : Rule → Prop
  | band _ min max => min ≤ max
  | fband _ min max => min ≤ max
  | reniceBand min max => min ≤ max
  | startBefore k other => k ≠ other
  | _ => True

end Rule

/-- One field is set. -/
inductive Sets (p : GuardPolicy) : PolicyField → GuardPolicy → Prop
  | num (k : Knob) (v : Nat) : Sets p (.num k) (p.setNum k v)
  | float (k : FloatKnob) (v : FloatValue) : Sets p (.float k) (p.setFloat k v)
  | text (k : TextKnob) (v : String) : Sets p (.text k) (p.setText k v)
  | list (k : ListKnob) (v : List String) : Sets p (.list k) (p.setList k v)
  | renice (v : Int) : Sets p .renice { p with reniceValue := v }

namespace Sets

variable {p q : GuardPolicy} {f : PolicyField}

theorem num_eq (h : Sets p f q) {k : Knob} (hk : f ≠ .num k) : q.num k = p.num k := by
  cases h with
  | num k' v =>
    have hne : k ≠ k' := fun heq => hk (congrArg PolicyField.num heq.symm)
    exact Function.update_of_ne hne v p.num
  | float | text | list | renice => rfl

theorem float_eq (h : Sets p f q) {k : FloatKnob} (hk : f ≠ .float k) : q.float k = p.float k := by
  cases h with
  | float k' v =>
    have hne : k ≠ k' := fun heq => hk (congrArg PolicyField.float heq.symm)
    exact Function.update_of_ne hne v p.float
  | num | text | list | renice => rfl

theorem text_eq (h : Sets p f q) {k : TextKnob} (hk : f ≠ .text k) : q.text k = p.text k := by
  cases h with
  | text k' v =>
    have hne : k ≠ k' := fun heq => hk (congrArg PolicyField.text heq.symm)
    exact Function.update_of_ne hne v p.text
  | num | float | list | renice => rfl

theorem list_eq (h : Sets p f q) {k : ListKnob} (hk : f ≠ .list k) : q.list k = p.list k := by
  cases h with
  | list k' v =>
    have hne : k ≠ k' := fun heq => hk (congrArg PolicyField.list heq.symm)
    exact Function.update_of_ne hne v p.list
  | num | float | text | renice => rfl

theorem renice_eq (h : Sets p f q) (hf : f ≠ .renice) : q.reniceValue = p.reniceValue := by
  cases h with
  | renice v => exact absurd rfl hf
  | num | float | text | list => rfl

theorem reap_eq (h : Sets p f q) : q.reapStaleDevServers = p.reapStaleDevServers := by
  cases h <;> rfl

theorem protectedPaths_eq (h : Sets p f q) : q.protectedPaths = p.protectedPaths := by
  cases h <;> rfl

/-- A field set to what it is. -/
theorem self (p : GuardPolicy) (f : PolicyField) : Sets p f p := by
  cases f with
  | num k =>
    have h : Sets p (.num k) (p.setNum k (p.num k)) := .num k _
    rwa [GuardPolicy.setNum, Function.update_eq_self] at h
  | float k =>
    have h : Sets p (.float k) (p.setFloat k (p.float k)) := .float k _
    rwa [GuardPolicy.setFloat, Function.update_eq_self] at h
  | text k =>
    have h : Sets p (.text k) (p.setText k (p.text k)) := .text k _
    rwa [GuardPolicy.setText, Function.update_eq_self] at h
  | list k =>
    have h : Sets p (.list k) (p.setList k (p.list k)) := .list k _
    rwa [GuardPolicy.setList, Function.update_eq_self] at h
  | renice => exact .renice p.reniceValue

/-- What is settled about other fields stays so. -/
theorem settles (h : Sets p f q) {r : Rule} (hf : f ∉ r.reads) (hr : r.Settles p) :
    r.Settles q := by
  cases r with
  | floor k min | ceil k max | band k min max =>
    have hk : q.num k = p.num k := h.num_eq fun heq => hf (heq ▸ List.mem_cons_self)
    simpa only [Rule.Settles, hk] using hr
  | fband k min max =>
    have hk : q.float k = p.float k := h.float_eq fun heq => hf (heq ▸ List.mem_cons_self)
    simpa only [Rule.Settles, hk] using hr
  | reniceBand min max =>
    have hk : q.reniceValue = p.reniceValue := h.renice_eq fun heq => hf (heq ▸ List.mem_cons_self)
    simpa only [Rule.Settles, hk] using hr
  | notAbove k other | notBelow k other | startBefore k other =>
    have hk : q.num k = p.num k := h.num_eq fun heq => hf (heq ▸ List.mem_cons_self)
    have hother : q.num other = p.num other := h.num_eq fun heq =>
      hf (heq ▸ List.mem_cons_of_mem _ List.mem_cons_self)
    simpa only [Rule.Settles, hk, hother] using hr
  | shorten k max =>
    have hk : q.list k = p.list k := h.list_eq fun heq => hf (heq ▸ List.mem_cons_self)
    simpa only [Rule.Settles, hk] using hr
  | floorWhenReaping k min =>
    have hk : q.num k = p.num k := h.num_eq fun heq => hf (heq ▸ List.mem_cons_self)
    simpa only [Rule.Settles, hk, h.reap_eq] using hr
  | fallback k =>
    have hk : q.text k = p.text k := h.text_eq fun heq => hf (heq ▸ List.mem_cons_self)
    simpa only [Rule.Settles, hk] using hr

end Sets

namespace Rule

variable {env : PolicyEnv} {p : GuardPolicy} {r : Rule}

/-- **What a rule can do**: set the field it writes. -/
theorem sets_apply (env : PolicyEnv) (r : Rule) (p : GuardPolicy) :
    Sets p r.writes (r.apply env p).1 := by
  cases r with
  | floor k | ceil k | band k | notAbove k | notBelow k | startBefore k | floorWhenReaping k =>
    simp only [Rule.apply]
    split
    · exact .num k _
    · exact .self p _
  | fband k min max =>
    simp only [Rule.apply]
    split
    · exact .float k _
    · exact .self p _
  | reniceBand min max =>
    simp only [Rule.apply]
    split
    · exact .renice _
    · exact .self p _
  | shorten k max => exact .list k _
  | fallback k =>
    simp only [Rule.apply]
    split
    · exact .text k _
    · exact .self p _

end Rule

/-! ## Lists and texts -/

/-- A sorted list without repetitions, short enough, is its own sorted prefix. -/
theorem sortedPrefix_eq_self {entries : List String} {max : Nat}
    (hsorted : entries.Pairwise (· ≤ ·)) (hdistinct : entries.IsChain (· ≠ ·))
    (hlength : entries.length ≤ max) : sortedPrefix entries max = entries := by
  rw [sortedPrefix, List.Pairwise.insertionSort_eq hsorted,
    List.destutter_of_isChain _ _ hdistinct, List.take_of_length_le hlength]

/-- **Once sorted and cut, always.** -/
theorem sortedPrefix_idem (entries : List String) (max : Nat) :
    sortedPrefix (sortedPrefix entries max) max = sortedPrefix entries max := by
  have hsort : (entries.insertionSort (· ≤ ·)).Pairwise (· ≤ ·) :=
    List.pairwise_insertionSort _ entries
  have hdestutter := hsort.sublist (List.destutter_sublist (· ≠ ·) _)
  refine sortedPrefix_eq_self (hdestutter.sublist (List.take_sublist _ _)) ?_ ?_
  · exact (List.isChain_destutter (· ≠ ·) _).take max
  · exact List.length_take_le _ _

/-- Text with a character that is not white space is not blank. -/
theorem trim_ne_nil {cs : List Char} {c : Char} (hc : c ∈ cs)
    (hblank : Text.isWhitespace c = false) : Text.trim (String.ofList cs) ≠ [] := by
  intro hnil
  obtain ⟨front, back, hsplit, hfront, hback⟩ := Text.exists_trim (String.ofList cs)
  rw [hnil, List.append_nil, String.toList_ofList] at hsplit
  rw [hsplit] at hc
  have hwhite : Text.isWhitespace c = true := (List.mem_append.mp hc).elim (hfront c) (hback c)
  exact Bool.false_ne_true (hblank.symm.trans hwhite)

theorem mem_joinChars {base rest : List Char} {c : Char} (hc : c ∈ rest) :
    c ∈ joinChars base rest := by
  unfold joinChars
  split
  · exact hc
  · split
    · exact List.mem_append_right _ hc
    · exact List.mem_append_right _ (List.mem_cons_of_mem _ hc)

theorem mem_notifyCandidates {user path : List Char} (h : path ∈ notifyCandidates user) :
    'n' ∈ path := by
  simp only [notifyCandidates, List.mem_cons, List.not_mem_nil, or_false] at h
  rcases h with rfl | rfl | rfl
  · exact List.mem_append_right _ (by decide)
  · decide
  · decide

theorem mem_defaultNotifyCommand (env : PolicyEnv) : 'n' ∈ defaultNotifyCommand env := by
  show 'n' ∈ ((notifyCandidates (env.user.getD "dracon".toList)).find? env.pathExists).getD
    "/usr/bin/notify-send".toList
  cases hfound : (notifyCandidates (env.user.getD "dracon".toList)).find? env.pathExists with
  | none => decide
  | some path => exact mem_notifyCandidates (List.mem_of_find?_eq_some hfound)

/-- **Every default passes its own check.** -/
theorem defaultText_not_blank (env : PolicyEnv) (k : TextKnob) :
    Text.trim (String.ofList (defaultText env k)) ≠ [] := by
  cases k with
  | syncFreezeMarker =>
    have hmem : 'd' ∈ "dracon-sync.freeze".toList := by decide
    exact trim_ne_nil (mem_joinChars hmem) (by decide)
  | stashDir =>
    have hmem : 's' ∈ "~/.local/share/dracon/stash".toList := by decide
    exact trim_ne_nil hmem (by decide)
  | notifyCommand => exact trim_ne_nil (mem_defaultNotifyCommand env) (by decide)

namespace Rule

variable {env : PolicyEnv} {p : GuardPolicy} {r : Rule}

/-- **What a rule settles holds once it was applied.** -/
theorem settles_apply (hr : r.Proper) (env : PolicyEnv) (p : GuardPolicy) :
    r.Settles (r.apply env p).1 := by
  cases r with
  | floor k min =>
    simp only [Rule.apply]
    split
    · simp [Rule.Settles, GuardPolicy.setNum]
    · next h => exact Nat.not_lt.mp h
  | ceil k max =>
    simp only [Rule.apply]
    split
    · simp [Rule.Settles, GuardPolicy.setNum]
    · next h => exact Nat.not_lt.mp h
  | band k min max =>
    have hband : min ≤ max := hr
    simp only [Rule.apply]
    split
    · simp only [Rule.Settles, GuardPolicy.setNum, Function.update_self]
      omega
    · next h =>
      simp only [Rule.Settles]
      omega
  | fband k min max =>
    simp only [Rule.apply]
    split
    · simp only [Rule.Settles, GuardPolicy.setFloat, Function.update_self]
      exact FloatValue.inBand_clamp _ hr
    · next h =>
      -- nothing differs: the value is what the clamp makes of it
      have hsame : (p.float k).clamp min max = p.float k := by
        simp only [FloatValue.differs, ne_eq, Bool.or_eq_true, decide_eq_true_eq, not_or,
          not_not] at h
        exact h.2
      have hband := FloatValue.inBand_clamp (p.float k) hr
      rwa [hsame] at hband
  | reniceBand min max =>
    have hband : min ≤ max := hr
    simp only [Rule.apply]
    split
    · simp only [Rule.Settles]
      omega
    · next h =>
      simp only [Rule.Settles]
      omega
  | notAbove k other =>
    simp only [Rule.apply]
    split
    · next h =>
      have hne : other ≠ k := by
        rintro rfl
        exact absurd h (Nat.lt_irrefl _)
      simp [Rule.Settles, GuardPolicy.setNum, Function.update_of_ne hne]
    · next h => exact Nat.not_lt.mp h
  | notBelow k other =>
    simp only [Rule.apply]
    split
    · next h =>
      have hne : other ≠ k := by
        rintro rfl
        exact absurd h (Nat.lt_irrefl _)
      simp [Rule.Settles, GuardPolicy.setNum, Function.update_of_ne hne]
    · next h => exact Nat.not_lt.mp h
  | startBefore k other =>
    have hne : other ≠ k := Ne.symm hr
    simp only [Rule.apply]
    split
    · simp only [Rule.Settles, GuardPolicy.setNum, Function.update_self,
        Function.update_of_ne hne]
      omega
    · next h => exact Or.inl (Nat.not_le.mp h)
  | shorten k max =>
    simp only [Rule.apply, Rule.Settles, GuardPolicy.setList, Function.update_self]
    exact sortedPrefix_idem _ _
  | floorWhenReaping k min =>
    simp only [Rule.apply]
    split
    · simp [Rule.Settles, GuardPolicy.setNum]
    · next h => exact fun hreap => Nat.not_lt.mp fun hlow => h ⟨hreap, hlow⟩
  | fallback k =>
    simp only [Rule.apply]
    split
    · simp only [Rule.Settles, GuardPolicy.setText, Function.update_self]
      exact defaultText_not_blank env k
    · next h => exact h

/-- The rule says nothing where it is settled. The gate that starts before a threshold is silent
only below it. -/
def Silent (p : GuardPolicy) : Rule → Prop
  | startBefore k other => p.num k < p.num other
  | r => r.Settles p

theorem apply_of_silent (h : r.Silent p) : r.apply env p = (p, []) := by
  cases r with
  | floor k min => exact if_neg (Nat.not_lt.mpr h)
  | ceil k max => exact if_neg (Nat.not_lt.mpr h)
  | band k min max =>
    have hband : min ≤ p.num k ∧ p.num k ≤ max := h
    exact if_neg (by omega)
  | fband k min max =>
    have hband : (p.float k).InBand min max := h
    exact if_neg (by rw [hband.differs_clamp]; exact Bool.false_ne_true)
  | reniceBand min max =>
    have hband : min ≤ p.reniceValue ∧ p.reniceValue ≤ max := h
    exact if_neg (by omega)
  | notAbove k other => exact if_neg (Nat.not_lt.mpr h)
  | notBelow k other => exact if_neg (Nat.not_lt.mpr h)
  | startBefore k other => exact if_neg (Nat.not_le.mpr h)
  | shorten k max =>
    have hsame : sortedPrefix (p.list k) max = p.list k := h
    have hset : p.setList k (p.list k) = p := by simp [GuardPolicy.setList]
    simp [Rule.apply, hsame, hset]
  | floorWhenReaping k min => exact if_neg fun hlow => absurd (h hlow.1) (Nat.not_le.mpr hlow.2)
  | fallback k => exact if_neg h

theorem silent_of_settles (h : r.Settles p)
    (hbelow : ∀ k other, r = .startBefore k other → p.num k < p.num other) : r.Silent p := by
  cases r with
  | startBefore k other => exact hbelow k other rfl
  | floor | ceil | band | fband | reniceBand | notAbove | notBelow | shorten | floorWhenReaping
    | fallback => exact h

/-- **A settled rule changes nothing.** -/
theorem apply_of_settles (h : r.Settles p) : (r.apply env p).1 = p := by
  by_cases hstart : ∃ k other, r = .startBefore k other
  · obtain ⟨k, other, rfl⟩ := hstart
    have hsettles : p.num k < p.num other ∨ p.num k = 1 ∧ p.num other ≤ 1 := h
    simp only [Rule.apply]
    split
    · have hvalue : max (p.num other - 1) 1 = p.num k := by omega
      rw [hvalue, GuardPolicy.setNum, Function.update_eq_self]
    · rfl
  · rw [apply_of_silent (silent_of_settles h fun k other heq => absurd ⟨k, other, heq⟩ hstart)]

end Rule

/-! ## The rules in their order -/

/-- A later rule that takes nothing back: it writes another field, or lowers what has a lower
bound under it. -/
def Rule.sparedBy (r later : Rule) : Bool :=
  later.writes ∉ r.reads ||
    match r, later with
    | .floor k min, .ceil k' max => k = k' && min ≤ max
    | _, _ => false

theorem Rule.settles_of_sparedBy {r later : Rule} (h : r.sparedBy later = true) (env : PolicyEnv)
    {p : GuardPolicy} (hr : r.Settles p) : r.Settles (later.apply env p).1 := by
  unfold Rule.sparedBy at h
  rcases Bool.or_eq_true _ _ ▸ h with hother | hceil
  · exact (Rule.sets_apply env later p).settles (of_decide_eq_true hother) hr
  · split at hceil
    · next k min k' max =>
      simp only [Bool.and_eq_true, decide_eq_true_eq] at hceil
      obtain ⟨rfl, hle⟩ := hceil
      simp only [Rule.apply]
      split
      · simpa [Rule.Settles, GuardPolicy.setNum] using hle
      · exact hr
    · cases hceil

/-- No rule takes back what an earlier one settled. -/
theorem settles_of_pairwise {rules : List Rule} (hproper : ∀ r ∈ rules, r.Proper)
    (hspared : rules.Pairwise fun r later => r.sparedBy later = true) (env : PolicyEnv)
    (p : GuardPolicy) : ∀ r ∈ rules, r.Settles (run (Rule.apply env) rules p).1 := by
  intro r hr
  obtain ⟨pre, post, hsplit⟩ := List.append_of_mem hr
  subst hsplit
  have hlater : ∀ later ∈ post, r.sparedBy later = true :=
    (List.pairwise_cons.mp (List.pairwise_append.mp hspared).2.1).1
  exact run_of_split (P := fun q => r.Settles q) rfl (Rule.settles_apply (hproper r hr) env)
    fun later hmem _ hq => Rule.settles_of_sparedBy (hlater later hmem) env hq

/-- What is settled before stays so under rules that spare it. -/
theorem settles_of_spared {r : Rule} {rules : List Rule}
    (hspared : ∀ later ∈ rules, r.sparedBy later = true) (env : PolicyEnv) {p : GuardPolicy}
    (hr : r.Settles p) : r.Settles (run (Rule.apply env) rules p).1 :=
  run_of_keeps (P := fun q => r.Settles q)
    (fun later hmem _ hq => Rule.settles_of_sparedBy (hspared later hmem) env hq) hr

theorem proper_cadenceRules : ∀ r ∈ cadenceRules, r.Proper := by
  simp [cadenceRules, Rule.Proper]

theorem proper_laterRules : ∀ r ∈ laterRules, r.Proper := by
  simp [laterRules, Rule.Proper, reniceValueMin, reniceValueMax]
  norm_num

/-! ## The disk bands

Here a later rule does move what an earlier one compared with: critical is raised to an action
threshold that is capped only afterwards, by a cap that is also critical's. -/

/-- What a rule between disk thresholds makes of the unsigned fields. -/
def Rule.move (num : Knob → Nat) : Rule → Knob → Nat
  | ceil k max => Function.update num k (min (num k) max)
  | band k low high => Function.update num k (min (max (num k) low) high)
  | notAbove k other => Function.update num k (min (num k) (num other))
  | notBelow k other => Function.update num k (max (num k) (num other))
  | startBefore k other =>
    Function.update num k (if num other ≤ num k then max (num other - 1) 1 else num k)
  | _ => num

theorem num_apply_of_band {r : Rule} (hr : r ∈ diskBandRules) (env : PolicyEnv) (p : GuardPolicy) :
    (r.apply env p).1.num = r.move p.num := by
  have hself : ∀ (k : Knob) (v : Nat), v = p.num k → p.num = Function.update p.num k v := by
    rintro k v rfl
    exact (Function.update_eq_self k p.num).symm
  simp only [diskBandRules, List.mem_cons, List.not_mem_nil, or_false] at hr
  rcases hr with rfl | rfl | rfl | rfl | rfl | rfl | rfl | rfl | rfl | rfl <;>
  · simp only [Rule.apply, Rule.move]
    split
    · exact congrArg (Function.update p.num _) (by omega)
    · exact hself _ _ (by omega)

theorem num_run_of_band {rules : List Rule} (hrules : ∀ r ∈ rules, r ∈ diskBandRules)
    (env : PolicyEnv) (p : GuardPolicy) :
    (run (Rule.apply env) rules p).1.num = rules.foldl Rule.move p.num := by
  induction rules generalizing p with
  | nil => rfl
  | cons r rules ih =>
    rw [List.foldl_cons, ← num_apply_of_band (hrules r List.mem_cons_self) env p]
    exact ih (fun r' hr' => hrules r' (List.mem_cons_of_mem r hr')) _

/-- **The disk thresholds are settled by the end of their block.** -/
theorem settles_diskBandRules (env : PolicyEnv) (p : GuardPolicy) :
    ∀ r ∈ diskBandRules, r.Settles (run (Rule.apply env) diskBandRules p).1 := by
  have hnum := num_run_of_band (fun _ hr => hr) env p
  generalize (run (Rule.apply env) diskBandRules p).1 = q at hnum
  simp only [diskBandRules, List.foldl_cons, List.foldl_nil, Rule.move] at hnum
  have hwarn := congrFun hnum .diskWarnPercent
  have hearly := congrFun hnum .diskEarlyWarnPercent
  have haction := congrFun hnum .diskActionPercent
  have hcritical := congrFun hnum .diskCriticalPercent
  have hproactive := congrFun hnum .proactiveCleanupPercent
  have hunfreeze := congrFun hnum .unfreezeBelowPercent
  simp only [Function.update, reduceCtorEq, dite_false, dite_true, eq_rec_constant]
    at hwarn hearly haction hcritical hproactive hunfreeze
  clear hnum
  -- the gates, against the action threshold as it ends
  rw [← haction] at hproactive hunfreeze
  have hgate : ∀ v : Nat, (if q.num .diskActionPercent ≤ v
      then max (q.num .diskActionPercent - 1) 1 else v) < q.num .diskActionPercent ∨
      (if q.num .diskActionPercent ≤ v then max (q.num .diskActionPercent - 1) 1 else v) = 1 ∧
        q.num .diskActionPercent ≤ 1 := by
    intro v
    split <;> omega
  have hproactive' := hproactive ▸ hgate _
  have hunfreeze' := hunfreeze ▸ hgate _
  have hpositive : 1 ≤ q.num .unfreezeBelowPercent ∧ q.num .unfreezeBelowPercent ≤ 100 := by
    rw [hunfreeze]
    split <;> omega
  clear hproactive hunfreeze hgate
  intro r hr
  simp only [diskBandRules, List.mem_cons, List.not_mem_nil, or_false] at hr
  rcases hr with rfl | rfl | rfl | rfl | rfl | rfl | rfl | rfl | rfl | rfl <;>
  · simp only [Rule.Settles]
    omega

/-! ## After the last rule -/

theorem pairwise_cadenceRules : cadenceRules.Pairwise fun r later => r.sparedBy later = true := by
  decide

theorem pairwise_laterRules : laterRules.Pairwise fun r later => r.sparedBy later = true := by
  decide

theorem cadence_sparedBy : ∀ r ∈ cadenceRules, ∀ later ∈ diskBandRules ++ laterRules,
    r.sparedBy later = true := by
  decide

theorem diskBand_sparedBy : ∀ r ∈ diskBandRules, ∀ later ∈ laterRules,
    r.sparedBy later = true := by
  decide

/-- **Every rule is settled by a normalization.** -/
theorem settles_normalized (env : PolicyEnv) (home : Option (List Char)) (policy : GuardPolicy) :
    ∀ r ∈ normalizationRules, r.Settles (normalizeGuardPolicyWithHome env home policy).1 := by
  intro r hr
  unfold normalizeGuardPolicyWithHome normalizationRules
  rw [run_append]
  rcases List.mem_append.mp hr with hcadence | hrest
  · exact settles_of_spared (cadence_sparedBy r hcadence) env
      (settles_of_pairwise proper_cadenceRules pairwise_cadenceRules env _ r hcadence)
  · rw [run_append]
    rcases List.mem_append.mp hrest with hband | hlater
    · exact settles_of_spared (diskBand_sparedBy r hband) env (settles_diskBandRules env _ r hband)
    · exact settles_of_pairwise proper_laterRules pairwise_laterRules env _ r hlater

/-! ## Documented zeros -/

/-- A rule that leaves a zero of this field alone. -/
def Rule.keepsZero (k : Knob) (reaping : Bool) (r : Rule) : Bool :=
  r.writes ≠ .num k ||
    match r with
    | .ceil _ _ => true
    | .floorWhenReaping _ _ => !reaping
    | _ => false

theorem Rule.num_of_keepsZero {k : Knob} {reaping : Bool} {r : Rule}
    (h : r.keepsZero k reaping = true) (env : PolicyEnv) {p : GuardPolicy}
    (hp : p.num k = 0 ∧ p.reapStaleDevServers = reaping) :
    (r.apply env p).1.num k = 0 ∧ (r.apply env p).1.reapStaleDevServers = reaping := by
  obtain ⟨hzero, hreaping⟩ := hp
  refine ⟨?_, (Rule.sets_apply env r p).reap_eq.trans hreaping⟩
  unfold Rule.keepsZero at h
  by_cases hother : r.writes = .num k
  · simp only [hother, ne_eq, not_true_eq_false, decide_false, Bool.false_or] at h
    cases r with
    | ceil k' max =>
      obtain rfl : k' = k := PolicyField.num.inj hother
      simp [Rule.apply, hzero]
    | floorWhenReaping k' min =>
      have hoff : p.reapStaleDevServers = false := by rw [hreaping]; simpa using h
      simp [Rule.apply, hoff, hzero]
    | floor | band | fband | reniceBand | notAbove | notBelow | startBefore | shorten
      | fallback => exact absurd h Bool.false_ne_true
  · exact ((Rule.sets_apply env r p).num_eq hother).trans hzero

theorem all_keepsZero : (sentinelZeroKnobs.all fun k => normalizationRules.all fun r =>
    r.keepsZero k false && (k == .reapReportMinIdleHours || r.keepsZero k true)) = true := by
  decide +kernel

theorem keepsZero_of_sentinel {policy : GuardPolicy} {k : Knob} (hk : k ∈ sentinelZeroKnobs)
    (hreaper : k = .reapReportMinIdleHours → policy.reapStaleDevServers = false) :
    ∀ r ∈ normalizationRules, r.keepsZero k policy.reapStaleDevServers = true := by
  intro r hr
  have hkeeps := List.all_eq_true.mp (List.all_eq_true.mp all_keepsZero k hk) r hr
  simp only [Bool.and_eq_true, Bool.or_eq_true, beq_iff_eq] at hkeeps
  cases hreaping : policy.reapStaleDevServers with
  | false => exact hkeeps.1
  | true =>
    refine hkeeps.2.resolve_left fun heq => ?_
    rw [hreaper heq] at hreaping
    exact absurd hreaping Bool.false_ne_true

def ZeroAt (k : Knob) (reaping : Bool) (q : GuardPolicy) : Prop :=
  q.num k = 0 ∧ q.reapStaleDevServers = reaping

/-- **A documented zero stays one**, but for the floor under the reaper. -/
theorem zeroAt_normalized {policy : GuardPolicy} {k : Knob} (hk : k ∈ sentinelZeroKnobs)
    (hzero : policy.num k = 0)
    (hreaper : k = .reapReportMinIdleHours → policy.reapStaleDevServers = false)
    (env : PolicyEnv) (home : Option (List Char)) :
    ZeroAt k policy.reapStaleDevServers (normalizeGuardPolicyWithHome env home policy).1 := by
  have hkeeps := keepsZero_of_sentinel hk hreaper
  have hstart : ZeroAt k policy.reapStaleDevServers (expandProtectedPaths home policy) :=
    ⟨hzero, rfl⟩
  unfold normalizeGuardPolicyWithHome
  exact run_of_keeps (P := ZeroAt k policy.reapStaleDevServers)
    (fun r hr _ hq => Rule.num_of_keepsZero (hkeeps r hr) env hq) hstart

/-! ## A second reading of `~` -/

/-- A home directory that trimming and a second expansion leave alone. Every absolute path that
does not end in white space is one. -/
def StableHome (home : List Char) : Prop :=
  home ≠ [] ∧ Text.Trimmed home ∧ ¬ ['~', '/'] <+: home

theorem stripPrefix_eq_none {cs part : List Char} (h : ¬ part <+: cs) :
    Text.stripPrefix cs part = none :=
  if_neg fun hprefix => h (List.isPrefixOf_iff_prefix.mp hprefix)

theorem expandTilde_of_plain {raw : List Char} (htilde : raw ≠ ['~'])
    (hhome : ¬ ['~', '/'] <+: raw) (home : Option (List Char)) :
    expandTildeWithHome raw home = raw := by
  simp [expandTildeWithHome, htilde, stripPrefix_eq_none hhome]

theorem joinChars_eq (base rest : List Char) :
    joinChars base rest = rest ∧ rest.head? = some '/' ∨
      joinChars base rest = base ++ rest ∧ (base = [] ∨ base.getLast? = some '/') ∨
        joinChars base rest = base ++ '/' :: rest := by
  unfold joinChars
  split
  · next h => exact .inl ⟨rfl, h⟩
  · split
    · next h => exact .inr (.inl ⟨rfl, h⟩)
    · exact .inr (.inr rfl)

theorem trimmed_append {front back : List Char} (hfront : front ≠ []) (h : Text.Trimmed front)
    (hback : ∀ c, back.getLast? = some c → Text.isWhitespace c = false) :
    Text.Trimmed (front ++ back) := by
  constructor
  · intro c hc
    rw [List.head?_append_of_ne_nil _ hfront] at hc
    exact h.1 c hc
  · intro c hc
    rw [List.getLast?_append] at hc
    cases hlast : back.getLast? with
    | none => exact h.2 c (by simpa [hlast] using hc)
    | some b =>
      obtain rfl : b = c := by simpa [hlast] using hc
      exact hback b hlast

/-- What follows a home directory does not make a `~` of it. -/
theorem append_plain {home : List Char} (hne : home ≠ []) (htilde : home ≠ ['~'])
    (hplain : ¬ ['~', '/'] <+: home) (back : List Char) :
    home ++ back ≠ ['~'] ∧ ¬ ['~', '/'] <+: home ++ back := by
  cases home with
  | nil => exact absurd rfl hne
  | cons c cs =>
    by_cases hc : c = '~'
    · subst hc
      cases cs with
      | nil => exact absurd rfl htilde
      | cons d cs =>
        have hd : '/' ≠ d := fun heq => hplain (heq ▸ ⟨cs, rfl⟩)
        simp [List.cons_prefix_cons, hd]
    · have hc' : '~' ≠ c := Ne.symm hc
      simp [List.cons_prefix_cons, hc, hc']

/-- The path behind `~/`, under the home directory: trimmed, and read as it is. -/
theorem joinChars_stable {home : Option (List Char)} (hhome : StableHome (home.getD ['.']))
    {rest : List Char} (hrest : ∀ c, rest.getLast? = some c → Text.isWhitespace c = false) :
    Text.Trimmed (joinChars (home.getD ['.']) rest) ∧
      expandTildeWithHome (joinChars (home.getD ['.']) rest) home =
        joinChars (home.getD ['.']) rest := by
  obtain ⟨hne, htrimmed, hplain⟩ := hhome
  have hslash : ∀ c, ('/' :: rest).getLast? = some c → Text.isWhitespace c = false := by
    intro c hc
    rw [List.getLast?_cons] at hc
    cases hlast : rest.getLast? with
    | none =>
      obtain rfl : '/' = c := by simpa [hlast] using hc
      decide
    | some b =>
      obtain rfl : b = c := by simpa [hlast] using hc
      exact hrest b hlast
  rcases joinChars_eq (home.getD ['.']) rest with ⟨heq, hroot⟩ | ⟨heq, hend⟩ | heq
  · rw [heq]
    obtain ⟨rest, rfl⟩ : ∃ tail, rest = '/' :: tail := by
      cases rest with
      | nil => cases hroot
      | cons c tail => exact ⟨tail, by rw [Option.some.inj hroot]⟩
    refine ⟨⟨?_, hrest⟩, expandTilde_of_plain (by simp) (by simp) home⟩
    rintro c ⟨⟩
    decide
  · have htilde : home.getD ['.'] ≠ ['~'] := by
      intro htilde
      rw [htilde] at hend
      exact absurd hend (by decide)
    obtain ⟨hraw, hprefix⟩ := append_plain hne htilde hplain rest
    rw [heq]
    exact ⟨trimmed_append hne htrimmed hrest, expandTilde_of_plain hraw hprefix home⟩
  · refine ⟨heq ▸ trimmed_append hne htrimmed hslash, ?_⟩
    by_cases htilde : home.getD ['.'] = ['~']
    · -- a home directory of the name `~` is what it is read as
      have hstrip : Text.stripPrefix (joinChars (home.getD ['.']) rest) ['~', '/'] = some rest := by
        rw [heq, htilde]
        simp [Text.stripPrefix]
      have hraw : joinChars (home.getD ['.']) rest ≠ ['~'] := by
        rw [heq, htilde]
        simp
      simp [expandTildeWithHome, hraw, hstrip]
    · obtain ⟨hraw, hprefix⟩ := append_plain hne htilde hplain ('/' :: rest)
      rw [heq]
      exact expandTilde_of_plain hraw hprefix home

/-- **An expanded path expands to itself**, and is trimmed. -/
theorem expandTilde_stable {home : Option (List Char)} (hhome : StableHome (home.getD ['.']))
    {raw : List Char} (hraw : Text.Trimmed raw) :
    Text.Trimmed (expandTildeWithHome raw home) ∧
      expandTildeWithHome (expandTildeWithHome raw home) home = expandTildeWithHome raw home := by
  by_cases htilde : raw = ['~']
  · have hexpand : expandTildeWithHome raw home = home.getD ['.'] := if_pos htilde
    rw [hexpand]
    refine ⟨hhome.2.1, ?_⟩
    by_cases hhomeTilde : home.getD ['.'] = ['~']
    · exact if_pos hhomeTilde
    · exact expandTilde_of_plain hhomeTilde hhome.2.2 home
  · by_cases hprefix : ['~', '/'] <+: raw
    · obtain ⟨rest, rfl⟩ := hprefix
      have hexpand : expandTildeWithHome (['~', '/'] ++ rest) home =
          joinChars (home.getD ['.']) rest := by
        simp [expandTildeWithHome, Text.stripPrefix]
      rw [hexpand]
      refine joinChars_stable hhome fun c hc => hraw.2 c ?_
      rw [List.getLast?_append, hc]
      rfl
    · rw [expandTilde_of_plain htilde hprefix home]
      exact ⟨hraw, expandTilde_of_plain htilde hprefix home⟩

theorem expandProtectedPaths_stable {home : Option (List Char)}
    (hhome : StableHome (home.getD ['.'])) {p q : GuardPolicy}
    (hq : q.protectedPaths = (expandProtectedPaths home p).protectedPaths) :
    expandProtectedPaths home q = q := by
  have hpaths : (q.protectedPaths.map fun entry =>
      String.ofList (expandTildeWithHome (Text.trim entry) home)) = q.protectedPaths := by
    rw [hq]
    simp only [expandProtectedPaths, List.map_map]
    refine List.map_congr_left fun entry _ => ?_
    obtain ⟨htrimmed, hexpand⟩ := expandTilde_stable hhome (Text.trimmed_trim entry)
    simp only [Function.comp_apply]
    rw [htrimmed.trim_eq, hexpand]
  simp only [expandProtectedPaths, hpaths]

/-! ## The whole normalization -/

/-- The order of the thresholds and the bands of the floats. -/
structure LegalPolicy (q : GuardPolicy) : Prop where
  one_le_early : 1 ≤ q.num .diskEarlyWarnPercent
  early_le_warn : q.num .diskEarlyWarnPercent ≤ q.num .diskWarnPercent
  warn_le_action : q.num .diskWarnPercent ≤ q.num .diskActionPercent
  action_le_critical : q.num .diskActionPercent ≤ q.num .diskCriticalPercent
  critical_le : q.num .diskCriticalPercent ≤ 100
  one_le_unfreeze : 1 ≤ q.num .unfreezeBelowPercent
  unfreeze_lt_action : 1 < q.num .diskActionPercent →
    q.num .unfreezeBelowPercent < q.num .diskActionPercent
  proactive_lt_action : 1 < q.num .diskActionPercent →
    q.num .proactiveCleanupPercent < q.num .diskActionPercent
  sustain_le_stuck : q.num .processSustainSecs ≤ q.num .processStuckAfterSecs
  cpu_inBand : (q.float .processCpuPercent).InBand 1 100000
  psi_inBand : (q.float .memPsiFullWarn).InBand 0 100
  fill_inBand : (q.float .diskRapidFillGbph).InBand (1 / 2) 100000

theorem legal_of_settles {q : GuardPolicy} (h : ∀ r ∈ normalizationRules, r.Settles q) :
    LegalPolicy q := by
  have hearly := h (.band .diskEarlyWarnPercent 1 100) (by simp [normalizationRules, diskBandRules])
  have hnotAbove := h (.notAbove .diskEarlyWarnPercent .diskWarnPercent)
    (by simp [normalizationRules, diskBandRules])
  have haction := h (.notBelow .diskActionPercent .diskWarnPercent)
    (by simp [normalizationRules, diskBandRules])
  have hcritical := h (.notBelow .diskCriticalPercent .diskActionPercent)
    (by simp [normalizationRules, diskBandRules])
  have hceil := h (.ceil .diskCriticalPercent 100) (by simp [normalizationRules, diskBandRules])
  have hproactive := h (.startBefore .proactiveCleanupPercent .diskActionPercent)
    (by simp [normalizationRules, diskBandRules])
  have hband := h (.band .unfreezeBelowPercent 1 100)
    (by simp [normalizationRules, diskBandRules])
  have hunfreeze := h (.startBefore .unfreezeBelowPercent .diskActionPercent)
    (by simp [normalizationRules, diskBandRules])
  have hstuck := h (.notBelow .processStuckAfterSecs .processSustainSecs)
    (by simp [normalizationRules, laterRules])
  have hcpu := h (.fband .processCpuPercent 1 100000) (by simp [normalizationRules, laterRules])
  have hpsi := h (.fband .memPsiFullWarn 0 100) (by simp [normalizationRules, laterRules])
  have hfill := h (.fband .diskRapidFillGbph (1 / 2) 100000)
    (by simp [normalizationRules, laterRules])
  exact {
    one_le_early := hearly.1
    early_le_warn := hnotAbove
    warn_le_action := haction
    action_le_critical := hcritical
    critical_le := hceil
    one_le_unfreeze := hband.1
    unfreeze_lt_action := fun hone => hunfreeze.resolve_right fun hlow => by omega
    proactive_lt_action := fun hone => hproactive.resolve_right fun hlow => by omega
    sustain_le_stuck := hstuck
    cpu_inBand := hcpu
    psi_inBand := hpsi
    fill_inBand := hfill }

/-- The two gates under the action threshold are the only rules that are not always silent where
they are settled. -/
theorem gates_of_mem {k other : Knob} (h : Rule.startBefore k other ∈ normalizationRules) :
    other = .diskActionPercent ∧ (k = .proactiveCleanupPercent ∨ k = .unfreezeBelowPercent) := by
  simp only [normalizationRules, cadenceRules, diskBandRules, laterRules, List.cons_append,
    List.nil_append, List.mem_cons, List.not_mem_nil, reduceCtorEq, false_or, or_false,
    Rule.startBefore.injEq] at h
  rcases h with ⟨rfl, rfl⟩ | ⟨rfl, rfl⟩
  · exact ⟨rfl, .inl rfl⟩
  · exact ⟨rfl, .inr rfl⟩

theorem protectedPaths_normalized (env : PolicyEnv) (home : Option (List Char))
    (policy : GuardPolicy) : (normalizeGuardPolicyWithHome env home policy).1.protectedPaths =
      (expandProtectedPaths home policy).protectedPaths := by
  unfold normalizeGuardPolicyWithHome
  let Same (q : GuardPolicy) : Prop :=
    q.protectedPaths = (expandProtectedPaths home policy).protectedPaths
  have hstart : Same (expandProtectedPaths home policy) := rfl
  exact run_of_keeps (P := Same)
    (fun r _ q hq => (Rule.sets_apply env r q).protectedPaths_eq.trans hq) hstart

/-- **A second normalization changes nothing, and says nothing** where the gates have room below
the action threshold. -/
theorem normalized_fixed {home : Option (List Char)} {q : GuardPolicy}
    (hexpand : expandProtectedPaths home q = q)
    (hsettles : ∀ r ∈ normalizationRules, r.Settles q) (env : PolicyEnv) :
    (normalizeGuardPolicyWithHome env home q).1 = q ∧
      (1 < q.num .diskActionPercent → (normalizeGuardPolicyWithHome env home q).2 = []) := by
  unfold normalizeGuardPolicyWithHome
  rw [hexpand]
  refine ⟨run_of_fixed fun r hr => Rule.apply_of_settles (hsettles r hr), fun hone => ?_⟩
  have hlegal := legal_of_settles hsettles
  have hquiet : run (Rule.apply env) normalizationRules q = (q, []) := by
    refine run_of_quiet fun r hr => Rule.apply_of_silent (Rule.silent_of_settles (hsettles r hr) ?_)
    rintro k other rfl
    obtain ⟨rfl, rfl | rfl⟩ := gates_of_mem hr
    · exact hlegal.proactive_lt_action hone
    · exact hlegal.unfreeze_lt_action hone
  rw [hquiet]

/-- **Policy normalization**: whatever was configured, the thresholds end in their order and the
floats in their bands, a documented zero is still zero, and a second application changes nothing.
It reports nothing either, but for an action threshold of 1, below which there is no room. -/
theorem policy_normalized (env : PolicyEnv) (home : Option (List Char)) (policy : GuardPolicy) :
    LegalPolicy (normalizeGuardPolicyWithHome env home policy).1 ∧
      (∀ k ∈ sentinelZeroKnobs, policy.num k = 0 →
        (k = .reapReportMinIdleHours → policy.reapStaleDevServers = false) →
        (normalizeGuardPolicyWithHome env home policy).1.num k = 0) ∧
      (StableHome (home.getD ['.']) → ∀ env',
        (normalizeGuardPolicyWithHome env' home
            (normalizeGuardPolicyWithHome env home policy).1).1 =
          (normalizeGuardPolicyWithHome env home policy).1 ∧
        (1 < (normalizeGuardPolicyWithHome env home policy).1.num .diskActionPercent →
          (normalizeGuardPolicyWithHome env' home
            (normalizeGuardPolicyWithHome env home policy).1).2 = [])) := by
  have hsettles := settles_normalized env home policy
  have hpaths := protectedPaths_normalized env home policy
  refine ⟨legal_of_settles hsettles, fun k hk hzero hreaper => ?_, fun hhome env' => ?_⟩
  · exact (zeroAt_normalized hk hzero hreaper env home).1
  · generalize (normalizeGuardPolicyWithHome env home policy).1 = q at hsettles hpaths ⊢
    exact normalized_fixed (expandProtectedPaths_stable hhome hpaths) hsettles env'

/-- Every threshold at zero, one protected path. -/
def zeroPolicy : GuardPolicy where
  num := fun _ => 0
  float := fun _ => .nan
  text := fun _ => ""
  list := fun _ => []
  reniceValue := 0
  protectedPaths := ["~"]
  reapStaleDevServers := false

def bareEnv : PolicyEnv where
  homeDir := none
  user := none
  pathExists := fun _ => false

/-- At an action threshold of 1 both gates are at it and are reported again, and a home directory
that ends in a blank is not read twice as the same. -/
theorem policy_not_normalized :
    ¬ (normalizeGuardPolicyWithHome bareEnv none zeroPolicy).1.num .unfreezeBelowPercent <
        (normalizeGuardPolicyWithHome bareEnv none zeroPolicy).1.num .diskActionPercent ∧
      (normalizeGuardPolicyWithHome bareEnv none
        (normalizeGuardPolicyWithHome bareEnv none zeroPolicy).1).2 =
          ["unfreeze_below_percent"] ∧
      (normalizeGuardPolicyWithHome bareEnv (some ['/', 'u', ' '])
        (normalizeGuardPolicyWithHome bareEnv (some ['/', 'u', ' ']) zeroPolicy).1).1.protectedPaths
          ≠ (normalizeGuardPolicyWithHome bareEnv (some ['/', 'u', ' '])
            zeroPolicy).1.protectedPaths := by
  decide +kernel

end DraconGuard
