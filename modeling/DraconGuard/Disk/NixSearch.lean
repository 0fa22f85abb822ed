import Mathlib.Data.List.TakeDrop
import Mathlib.Data.List.TakeWhile
import DraconGuard.Disk.NixBlank

/-!
# The search for the list

`swap_devices_block` on the blanked text, in terms of what stands in the open of the text itself.
It takes the first mention of `swapDevices` that leads to a list (`swapDevicesBlockFrom_eq`), and
that list is the one which should be read unless the mention assigns none
(`nixosSwapDevices_of_selected`).
-/

namespace DraconGuard

open NixText TextSlice

/-! ## The search in a blanked text -/

/-- Marks as a reading makes them. -/
def QuotesMarked (ms : List Mark) : Prop := ∀ m ∈ ms, m.1 = .quote → m.2 = '"'

theorem quotesMarked_marks (s : Reading) (text : List Char) : QuotesMarked (marks s text) :=
  fun _ hm => quote_of_mem hm

/-- A character that blanking never writes. -/
def Solid (x : Char) : Prop := x ≠ ' ' ∧ x ≠ '\n' ∧ x ≠ '"'

section View

variable {x : Char} {ms : List Mark}

theorem mem_blankChar {c d : Char} (h : d ∈ blankChar c) : d = ' ' ∨ d = '\n' := by
  unfold blankChar at h
  split at h
  · exact Or.inr (List.mem_singleton.mp h)
  · exact Or.inl (List.eq_of_mem_replicate h)

/-- It comes from the open. -/
theorem mem_view (hx : Solid x) {m : Mark} (hm : m.1 = .quote → m.2 = '"') :
    x ∈ view m ↔ m = (.bare, x) := by
  obtain ⟨p, c⟩ := m
  constructor
  · intro h
    have hblank : x ∉ blankChar c := fun hmem => (mem_blankChar hmem).elim hx.1 hx.2.1
    cases p with
    | bare => rw [List.mem_singleton.mp h]
    | quote => exact absurd ((List.mem_singleton.mp h).trans (hm rfl)) hx.2.2
    | _ => exact absurd h hblank
  · rintro h
    rw [h]
    exact List.mem_singleton_self x

theorem mem_codeView (hx : Solid x) (hms : QuotesMarked ms) :
    x ∈ codeView ms ↔ (.bare, x) ∈ ms := by
  rw [codeView, List.mem_flatMap]
  constructor
  · rintro ⟨m, hm, hmem⟩
    rwa [(mem_view hx (hms m hm)).mp hmem] at hm
  · exact fun h => ⟨_, h, List.mem_singleton_self x⟩

theorem QuotesMarked.tail {m : Mark} (h : QuotesMarked (m :: ms)) : QuotesMarked ms :=
  fun m' hm' => h m' (List.mem_cons_of_mem m hm')

/-- A search for a character finds it where it stands in the open. -/
theorem span_codeView (hx : Solid x) (hms : QuotesMarked ms) :
    (codeView ms).takeWhile (· ≠ x) = codeView (ms.takeWhile (!isBare x ·)) ∧
      (codeView ms).dropWhile (· ≠ x) = codeView (ms.dropWhile (!isBare x ·)) := by
  induction ms with
  | nil => exact ⟨rfl, rfl⟩
  | cons m ms ih =>
    by_cases hm : m = (.bare, x)
    · subst hm
      rw [List.takeWhile_cons_of_neg (by simp), List.dropWhile_cons_of_neg (by simp)]
      exact ⟨List.takeWhile_cons_of_neg (by simp), List.dropWhile_cons_of_neg (by simp)⟩
    · have hpass : ∀ c ∈ view m, decide (c ≠ x) = true := by
        intro c hc
        rw [decide_eq_true_eq]
        rintro rfl
        exact hm ((mem_view hx (hms m List.mem_cons_self)).mp hc)
      obtain ⟨htake, hdrop⟩ := ih hms.tail
      have hbare : isBare x m = false := Bool.eq_false_iff.mpr (mt isBare_iff.mp hm)
      rw [List.takeWhile_cons_of_pos (by rw [hbare]; rfl),
        List.dropWhile_cons_of_pos (by rw [hbare]; rfl)]
      show (view m ++ codeView ms).takeWhile _ = view m ++ codeView _ ∧
        (view m ++ codeView ms).dropWhile _ = codeView _
      rw [List.takeWhile_append_of_pos hpass, List.dropWhile_append_of_pos hpass, htake, hdrop]
      exact ⟨rfl, rfl⟩

/-- Over characters that are no brackets. -/
theorem matchBrackets_append {xs : List Char} (h : ∀ c ∈ xs, c ≠ '[' ∧ c ≠ ']') (depth offset : Nat)
    (ys : List Char) :
    matchBrackets depth offset (xs ++ ys) = matchBrackets depth (offset + size xs) ys := by
  induction xs generalizing offset with
  | nil => rfl
  | cons c xs ih =>
    obtain ⟨hopen, hclose⟩ := h c List.mem_cons_self
    rw [List.cons_append, matchBrackets, if_neg hopen, if_neg hclose,
      ih (fun d hd => h d (List.mem_cons_of_mem c hd)), size_cons, Nat.add_assoc]

theorem size_pos_of_closedList {depth : Nat} {list : List Mark}
    (h : closedList depth ms = some list) : 0 < size (chars list) := by
  obtain ⟨init, rest, rfl, -⟩ := closedList_eq_some h
  rw [chars_append, size_append]
  exact Nat.lt_of_lt_of_le (by decide : 0 < size (chars [(Place.bare, ']')]))
    (Nat.le_add_left _ _)

/-- The bracket that closes a list is found. -/
theorem matchBrackets_codeView (hms : QuotesMarked ms) (depth offset : Nat) :
    matchBrackets depth offset (codeView ms) =
      (closedList depth ms).map fun list => offset + (size (chars list) - 1) := by
  induction ms generalizing depth offset with
  | nil => rfl
  | cons m ms ih =>
    have hmore : ∀ d, matchBrackets d (offset + m.2.utf8Size) (codeView ms) =
        ((closedList d ms).map (m :: ·)).map fun list => offset + (size (chars list) - 1) := by
      intro d
      rw [ih hms.tail, Option.map_map]
      cases hlist : closedList d ms with
      | none => rfl
      | some list =>
        have hpos := size_pos_of_closedList hlist
        refine congrArg some ?_
        show offset + m.2.utf8Size + (size (chars list) - 1) =
          offset + (m.2.utf8Size + size (chars list) - 1)
        omega
    have hquote := hms m List.mem_cons_self
    by_cases hopen : m = (.bare, '[')
    · rw [closedList, if_pos hopen, ← hmore, hopen]
      rfl
    by_cases hclose : m = (.bare, ']')
    · rw [closedList, if_neg hopen, if_pos hclose]
      split
      · next hlast =>
        rw [hclose, hlast]
        rfl
      · next hlast =>
        rw [← hmore, hclose]
        exact if_neg hlast
    · rw [closedList, if_neg hopen, if_neg hclose, ← hmore, ← size_view]
      refine matchBrackets_append (fun c hc => ⟨?_, ?_⟩) depth offset (codeView ms)
      · rintro rfl
        exact hopen ((mem_view ⟨by decide, by decide, by decide⟩ hquote).mp hc)
      · rintro rfl
        exact hclose ((mem_view ⟨by decide, by decide, by decide⟩ hquote).mp hc)

end View

theorem blockAfter_eq (keyEnd : Nat) (afterKey : List Char) : blockAfter keyEnd afterKey =
    match afterKey.dropWhile (· ≠ '=') with
    | [] => none
    | _ :: afterEq =>
      let beforeOpen := afterEq.takeWhile (· ≠ '[')
      if ';' ∈ beforeOpen then none
      else
        let first := keyEnd + size (afterKey.takeWhile (· ≠ '=')) + 1 + size beforeOpen
        (matchBrackets 0 0 (afterEq.dropWhile (· ≠ '['))).map fun offset =>
          (first, first + offset + 1) := by
  unfold blockAfter
  rw [List.span_eq_takeWhile_dropWhile]
  cases afterKey.dropWhile (· ≠ '=') with
  | nil => rfl
  | cons eq afterEq =>
    dsimp only
    rw [List.span_eq_takeWhile_dropWhile]
    cases afterEq.dropWhile (· ≠ '[') with
    | nil => simp [matchBrackets]
    | cons first list => rfl

/-- **What the search takes** behind a name, in bytes. -/
theorem blockAfter_codeView {behind : List Mark} (hbehind : QuotesMarked behind) (keyEnd : Nat) :
    blockAfter keyEnd (codeView behind) = (reach behind).map fun found =>
      (keyEnd + size (chars found.1), keyEnd + size (chars found.1) + size (chars found.2)) := by
  obtain ⟨htake, hdrop⟩ := span_codeView (x := '=') ⟨by decide, by decide, by decide⟩ hbehind
  rw [blockAfter_eq, htake, hdrop, reach]
  cases hrest : behind.dropWhile (!isBare '=' ·) with
  | nil => rfl
  | cons eq value =>
    have heq : eq = (.bare, '=') := by
      have hhead := List.head?_dropWhile_not (!isBare '=' ·) behind
      rw [hrest] at hhead
      simpa using hhead
    subst heq
    have hvalue : QuotesMarked value := fun m hm => hbehind m
      ((List.dropWhile_sublist _).subset (hrest ▸ List.mem_cons_of_mem _ hm))
    obtain ⟨htake', hdrop'⟩ := span_codeView (x := '[') ⟨by decide, by decide, by decide⟩ hvalue
    have hbefore : QuotesMarked (value.takeWhile (!isBare '[' ·)) := fun m hm =>
      hvalue m ((List.takeWhile_sublist _).subset hm)
    have hlist : QuotesMarked (value.dropWhile (!isBare '[' ·)) := fun m hm =>
      hvalue m ((List.dropWhile_sublist _).subset hm)
    have hcons : codeView ((Place.bare, '=') :: value) = '=' :: codeView value := rfl
    rw [hcons]
    dsimp only
    rw [htake', hdrop', matchBrackets_codeView hlist]
    simp only [mem_codeView (x := ';') ⟨by decide, by decide, by decide⟩ hbefore]
    split
    · rfl
    · rw [Option.map_map, Option.map_map]
      cases hclosed : closedList 0 (value.dropWhile (!isBare '[' ·)) with
      | none => rfl
      | some list =>
        have hpos := size_pos_of_closedList hclosed
        simp only [Option.map_some, Function.comp_apply, size_codeView, chars_append, size_append,
          Option.some.injEq, Prod.mk.injEq]
        have hone : size (chars ((Place.bare, '=') ::
            value.takeWhile (!isBare '[' ·))) =
              1 + size (chars (value.takeWhile (!isBare '[' ·))) := rfl
        rw [hone]
        omega

section Search

variable {ms : List Mark}

theorem view_ne_nil (m : Mark) : view m ≠ [] := by
  intro h
  have hsize := size_view m
  rw [h] at hsize
  exact Nat.ne_of_lt m.2.utf8Size_pos hsize

/-- A name is found where it stands in the open. -/
theorem prefix_codeView {name : List Char} (hname : ∀ x ∈ name, Solid x) (hms : QuotesMarked ms) :
    name <+: codeView ms ↔ inOpen name <+: ms := by
  induction name generalizing ms with
  | nil => exact iff_of_true List.nil_prefix List.nil_prefix
  | cons x name ih =>
    have hx := hname x List.mem_cons_self
    cases ms with
    | nil =>
      exact iff_of_false (fun h => List.cons_ne_nil _ _ (List.prefix_nil.mp h))
        (fun h => List.cons_ne_nil _ _ (List.prefix_nil.mp h))
    | cons m ms =>
      have hrest := ih (fun y hy => hname y (List.mem_cons_of_mem x hy)) hms.tail
      have hmem := mem_view hx (hms m List.mem_cons_self)
      by_cases hm : m = (.bare, x)
      · subst hm
        show x :: name <+: x :: codeView ms ↔ (Place.bare, x) :: inOpen name <+: _
        rw [List.cons_prefix_cons, List.cons_prefix_cons, hrest]
        simp
      · refine iff_of_false (fun h => ?_) fun h => hm (List.cons_prefix_cons.mp h).1.symm
        obtain ⟨c, cs, hview⟩ := List.exists_cons_of_ne_nil (view_ne_nil m)
        have hcons : codeView (m :: ms) = c :: (cs ++ codeView ms) := by
          show view m ++ codeView ms = _
          rw [hview]
          rfl
        rw [hcons, List.cons_prefix_cons] at h
        rw [hview] at hmem
        exact hm (hmem.mp (h.1 ▸ List.mem_cons_self))

variable {alphanumeric : Char → Bool} {b : Option Char} {pos : Nat} {xs : List Char}

/-- Over characters that no name begins with. -/
theorem swapDevicesBlockFrom_append (h : 's' ∉ xs) (b : Option Char) (pos : Nat) (ys : List Char) :
    swapDevicesBlockFrom alphanumeric b pos 0 (xs ++ ys) =
      swapDevicesBlockFrom alphanumeric (xs.getLast?.or b) (pos + size xs) 0 ys := by
  induction xs generalizing b pos with
  | nil => rfl
  | cons c xs ih =>
    rw [List.mem_cons, not_or] at h
    have hkey : ¬ swapDevicesKey.isPrefixOf (c :: (xs ++ ys)) = true := by
      rw [List.isPrefixOf_iff_prefix]
      exact fun hprefix => h.1 (List.cons_prefix_cons.mp hprefix).1
    rw [List.cons_append, swapDevicesBlockFrom, if_neg (not_not.mpr rfl), if_neg hkey, ih h.2,
      size_cons, Nat.add_assoc]
    rw [getLast?_or_cons]

/-- Over the rest of a name. -/
theorem swapDevicesBlockFrom_skip (xs ys : List Char) (b : Option Char) (pos : Nat) :
    swapDevicesBlockFrom alphanumeric b pos xs.length (xs ++ ys) =
      swapDevicesBlockFrom alphanumeric (xs.getLast?.or b) (pos + size xs) 0 ys := by
  induction xs generalizing b pos with
  | nil => rfl
  | cons c xs ih =>
    rw [List.cons_append, swapDevicesBlockFrom, if_pos (by simp), List.length_cons,
      Nat.add_sub_cancel, ih, size_cons, Nat.add_assoc]
    rw [getLast?_or_cons]

/-- The rest of the name need not be passed over: no name begins in it. -/
theorem swapDevicesBlockFrom_free (hletter : alphanumeric 'e' = true) (n : Nat) :
    ∀ ys : List Char, ys.length ≤ n → ∀ pos,
      swapDevicesBlockFrom alphanumeric (some 's') pos 10 ("wapDevices".toList ++ ys) =
        swapDevicesBlockFrom alphanumeric (some 's') pos 0 ("wapDevices".toList ++ ys) := by
  have hboundary : nameBoundary alphanumeric (some 'e') = false := by
    simp [nameBoundary, hletter]
  have hskip : ∀ ys pos, swapDevicesBlockFrom alphanumeric (some 's') pos 10
      ("wapDevices".toList ++ ys) = swapDevicesBlockFrom alphanumeric (some 's') (pos + 10) 0 ys :=
    fun ys pos => swapDevicesBlockFrom_skip "wapDevices".toList ys (some 's') pos
  have hopen : ∀ ys pos, swapDevicesBlockFrom alphanumeric (some 's') pos 0
      ("wapDevices".toList ++ ys) =
        swapDevicesBlockFrom alphanumeric (some 'e') (pos + 9) 0 ('s' :: ys) := fun ys pos =>
    @swapDevicesBlockFrom_append alphanumeric "wapDevice".toList (by decide) (some 's') pos
      ('s' :: ys)
  have hlast : ∀ ys pos, ¬ swapDevicesKey.isPrefixOf ('s' :: ys) = true →
      swapDevicesBlockFrom alphanumeric (some 'e') (pos + 9) 0 ('s' :: ys) =
        swapDevicesBlockFrom alphanumeric (some 's') (pos + 10) 0 ys := by
    intro ys pos hkey
    rw [swapDevicesBlockFrom, if_neg (not_not.mpr rfl), if_neg hkey]
    rfl
  induction n with
  | zero =>
    intro ys hys pos
    obtain rfl := List.length_eq_zero_iff.mp (Nat.le_zero.mp hys)
    rw [hskip, hopen, hlast [] pos (by decide)]
  | succ n ih =>
    intro ys hys pos
    rw [hskip, hopen]
    by_cases hkey : swapDevicesKey.isPrefixOf ('s' :: ys) = true
    · obtain ⟨tail, htail⟩ := List.isPrefixOf_iff_prefix.mp hkey
      obtain rfl : "wapDevices".toList ++ tail = ys := (List.cons.inj htail).2
      rw [swapDevicesBlockFrom, if_neg (not_not.mpr rfl), if_pos hkey, hboundary]
      refine (ih tail ?_ (pos + 10)).symm
      have hlength : "wapDevices".toList.length = 10 := rfl
      rw [List.length_append, hlength] at hys
      omega
    · exact (hlast ys pos hkey).symm

/-- The bytes of what is found at a mention. -/
def blockRange (mention found : List Mark × List Mark) : Nat × Nat :=
  let first := size (chars mention.1) + swapDevicesKey.length + size (chars found.1)
  (first, first + size (chars found.2))

/-- **The search in the blanked text** looks at one mention after the other. -/
theorem swapDevicesBlockFrom_eq (hletter : alphanumeric 'e' = true) (hms : QuotesMarked ms)
    (before : List Mark) :
    swapDevicesBlockFrom alphanumeric (before.head?.bind fun m => (view m).getLast?)
        (size (chars before)) 0 (codeView ms) =
      (mentions swapDevicesKey before ms).findSome? fun mention =>
        (taken alphanumeric mention).map (blockRange mention) := by
  induction ms generalizing before with
  | nil => rfl
  | cons m ms ih =>
    have hsolid : ∀ x ∈ swapDevicesKey, Solid x := by
      have hall : swapDevicesKey.all (fun x => x != ' ' && x != '\n' && x != '"') = true := by
        decide
      intro x hx
      simpa [Solid, and_assoc] using List.all_eq_true.mp hall x hx
    have hkey := prefix_codeView hsolid hms
    have hrest := ih hms.tail (m :: before)
    rw [chars, List.map_cons, size_cons, ← chars, ← size_view, Nat.add_comm] at hrest
    by_cases hprefix : inOpen swapDevicesKey <+: m :: ms
    · obtain ⟨behind, hbehind⟩ := hprefix
      obtain ⟨hm, htail⟩ := List.cons.inj hbehind
      have hcode : codeView ms = "wapDevices".toList ++ codeView behind := by
        rw [← htail]
        rfl
      have hfree := swapDevicesBlockFrom_free hletter (codeView behind).length (codeView behind)
        (Nat.le_refl _) (size (chars before) + 1)
      rw [← hcode] at hfree
      have hquoted : QuotesMarked behind := fun x hx => hms x (hbehind ▸ List.mem_append_right _ hx)
      rw [mentions_cons_of hbehind.symm, List.findSome?_cons, ← hrest, ← hm]
      show swapDevicesBlockFrom alphanumeric _ (size (chars before)) 0 ('s' :: codeView ms) = _
      rw [swapDevicesBlockFrom, if_neg (not_not.mpr rfl), if_pos (by
        rw [hcode]
        exact List.isPrefixOf_iff_prefix.mpr ⟨codeView behind, rfl⟩)]
      have hdrop : ('s' :: codeView ms).drop swapDevicesKey.length = codeView behind := by
        rw [hcode]
        rfl
      rw [hdrop, blockAfter_codeView hquoted]
      unfold taken
      have hlater : swapDevicesBlockFrom alphanumeric (some 's') (size (chars before) +
          Char.utf8Size 's') (swapDevicesKey.length - 1) (codeView ms) =
            swapDevicesBlockFrom alphanumeric (some 's') (size (chars before) + 1) 0
              (codeView ms) := hfree
      dsimp only
      rw [hlater]
      split
      · cases reach behind <;> rfl
      · rfl
    · rw [mentions_cons_of_not hprefix, ← hrest]
      by_cases hs : 's' ∈ view m
      · have hm := (mem_view (hsolid 's' (by decide)) (hms m List.mem_cons_self)).mp hs
        subst hm
        show swapDevicesBlockFrom alphanumeric _ (size (chars before)) 0 ('s' :: codeView ms) = _
        have hnot : ¬ swapDevicesKey.isPrefixOf ('s' :: codeView ms) = true := fun h =>
          hprefix (hkey.mp (List.isPrefixOf_iff_prefix.mp h))
        rw [swapDevicesBlockFrom, if_neg (not_not.mpr rfl), if_neg hnot]
        rfl
      · show swapDevicesBlockFrom alphanumeric _ (size (chars before)) 0
          (view m ++ codeView ms) = _
        rw [swapDevicesBlockFrom_append hs]
        congr 1
        obtain ⟨c, cs, hview⟩ := List.exists_cons_of_ne_nil (view_ne_nil m)
        rw [List.head?_cons, Option.bind_some, hview, List.getLast?_cons]
        rfl

end Search

/-! ## Which list is read -/

section Selection

variable {α β : Type} {f g : α → Option β} {l : List α}

/-- Where the first that one search takes is one that the other takes, both find the same. -/
theorem findSome?_eq_of_first (hsub : ∀ a b, g a = some b → f a = some b)
    (hfirst : ∀ a ∈ l.find? (fun a => (f a).isSome), (g a).isSome = true) :
    l.findSome? f = l.findSome? g := by
  induction l with
  | nil => rfl
  | cons a l ih =>
    rw [List.findSome?_cons, List.findSome?_cons]
    cases hg : g a with
    | some b => rw [hsub a b hg]
    | none =>
      have hf : f a = none := by
        by_contra hsome
        have hmem : a ∈ (a :: l).find? (fun a => (f a).isSome) := by
          simp [Option.isSome_iff_ne_none.mpr hsome]
        have htaken := hfirst a hmem
        rw [hg] at htaken
        cases htaken
      rw [hf]
      refine ih fun e he => hfirst e ?_
      simpa [List.find?_cons, hf] using he

/-- Where one search stops another one that passes over more stops as well. -/
theorem dropWhile_of_imp {p q : α → Bool} (himp : ∀ a, p a = true → q a = true) {x : α}
    {rest : List α} (hx : q x = false) (h : l.dropWhile p = x :: rest) :
    l.takeWhile q = l.takeWhile p ∧ l.dropWhile q = x :: rest := by
  induction l with
  | nil => cases h
  | cons a l ih =>
    by_cases ha : p a = true
    · rw [List.dropWhile_cons_of_pos ha] at h
      rw [List.takeWhile_cons_of_pos ha, List.takeWhile_cons_of_pos (himp a ha),
        List.dropWhile_cons_of_pos (himp a ha), (ih h).1]
      exact ⟨rfl, (ih h).2⟩
    · rw [List.dropWhile_cons_of_neg ha] at h
      obtain ⟨rfl, rfl⟩ := List.cons.inj h
      have ha' : ¬ q a = true := by rw [hx]; decide
      rw [List.takeWhile_cons_of_neg ha, List.takeWhile_cons_of_neg ha',
        List.dropWhile_cons_of_neg ha']
      exact ⟨rfl, rfl⟩

end Selection

section Block

variable {alphanumeric : Char → Bool} {config : List Char} {list : List Mark}

/-- What an attribute is assigned is what the search takes. -/
theorem reach_of_assigned {behind : List Mark}
    (h : (assigned behind).bind listValue = some list) :
    ∃ lead, reach behind = some (lead, list) := by
  obtain ⟨value, hvalue, hlist⟩ := Option.bind_eq_some_iff.mp h
  unfold assigned at hvalue
  split at hvalue
  · next eq value' heq =>
    obtain rfl := Option.some.inj hvalue
    have hbetween : ∀ m, between m = true → (!isBare '=' m) = true := by
      intro m hm
      by_contra hbare
      have heq : m = (.bare, '=') := by simpa using hbare
      rw [heq] at hm
      exact absurd hm (by decide)
    obtain ⟨-, hdrop⟩ := dropWhile_of_imp hbetween rfl heq
    unfold listValue at hlist
    split at hlist
    · next m rest hrest =>
      split at hlist
      · next hopen =>
        obtain rfl := isBare_iff.mp hopen
        have himp : ∀ m, (!(isBare '[' m || isBare ';' m || isBare '=' m)) = true →
            (!isBare '[' m) = true := by
          intro m hm
          simp only [Bool.not_eq_true', Bool.or_eq_false_iff] at hm ⊢
          exact hm.1.1
        obtain ⟨htake, hdrop'⟩ := dropWhile_of_imp himp rfl hrest
        refine ⟨behind.takeWhile (!isBare '=' ·) ++
          (.bare, '=') :: value'.takeWhile (!isBare '[' ·), ?_⟩
        unfold reach
        rw [hdrop]
        dsimp only
        rw [if_neg ?_, hdrop', hlist]
        · rfl
        · rw [htake]
          intro hmem
          have hpass := List.mem_takeWhile_imp hmem
          exact absurd hpass (by decide)
      · cases hlist
    · cases hlist
  · cases hvalue

/-- What the search takes is a list in the text behind the name. -/
theorem reach_eq_some {behind lead : List Mark} (h : reach behind = some (lead, list)) :
    ∃ init rest, list = (.bare, '[') :: (init ++ [(.bare, ']')]) ∧
      behind = lead ++ list ++ rest := by
  unfold reach at h
  split at h
  · cases h
  · next eq value hdrop =>
    dsimp only at h
    split at h
    · cases h
    · obtain ⟨list', hclosed, hpair⟩ := Option.map_eq_some_iff.mp h
      obtain ⟨rfl, rfl⟩ := Prod.mk.inj hpair
      obtain ⟨init, rest, rfl, hvalue⟩ := closedList_eq_some hclosed
      have hopen : ∃ init', init ++ [(Place.bare, ']')] =
          (.bare, '[') :: (init' ++ [(.bare, ']')]) := by
        have hhead := List.head?_dropWhile_not (!isBare '[' ·) value
        rw [hvalue] at hhead
        cases init with
        | nil => exact absurd hhead (by simp [isBare])
        | cons m init =>
          have hm : m = (.bare, '[') := by simpa using hhead
          exact ⟨init, by rw [hm]; rfl⟩
      obtain ⟨init', hinit⟩ := hopen
      refine ⟨init', rest, hinit, ?_⟩
      have houter := List.takeWhile_append_dropWhile (p := (!isBare '=' ·)) (l := behind)
      have hinner := List.takeWhile_append_dropWhile (p := (!isBare '[' ·)) (l := value)
      rw [hvalue] at hinner
      rw [hdrop, ← hinner] at houter
      simpa using houter.symm

theorem slice_append (pre mid post : List Char) :
    slice (size pre) (size pre + size mid) (pre ++ mid ++ post) = some mid := by
  rw [slice, ← size_append, sliceTo_size, Option.bind_some, sliceFrom_size]

/-- Marks of a list are the marks of its text. -/
theorem marks_list {s : Reading} {text : List Char} {pre init rest : List Mark}
    (h : marks s text = pre ++ (.bare, '[') :: (init ++ [(.bare, ']')]) ++ rest) :
    marks .bare (chars ((.bare, '[') :: (init ++ [(.bare, ']')]))) =
      (.bare, '[') :: (init ++ [(.bare, ']')]) := by
  rw [List.append_assoc] at h
  obtain ⟨s', -, hpost⟩ := marks_split h
  have hbare : s' = .bare := by
    have hplace : s'.place '[' (chars (init ++ [(Place.bare, ']')] ++ rest)) = .bare :=
      (congrArg Prod.fst (List.cons.inj hpost).1).symm
    clear hpost h
    cases s' <;> simp_all [Reading.place]
  subst hbare
  have hcut : marks .bare (chars ((Place.bare, '[') :: (init ++ [(Place.bare, ']')]) ++ rest)) =
      ((.bare, '[') :: init) ++ (.bare, ']') :: rest := by
    rw [← hpost]
    simp
  have hmarks := marks_cut hcut
  have hchars : chars ((Place.bare, '[') :: init) ++ [']'] =
      chars ((.bare, '[') :: (init ++ [(.bare, ']')])) := by
    rw [← List.cons_append, chars_append]
    rfl
  rw [hchars] at hmarks
  exact hmarks

theorem size_reverse (text : List Char) : size text.reverse = size text := by
  induction text with
  | nil => rfl
  | cons c text ih =>
    rw [List.reverse_cons, size_append, ih, size_cons, size_cons, size_nil, Nat.add_zero,
      Nat.add_comm]

/-- A mention that assigns a list is taken for it. -/
theorem taken_of_assigned (hascii : OnAscii alphanumeric) {mention : List Mark × List Mark}
    (h : assignedList alphanumeric mention = some list) :
    ∃ lead, taken alphanumeric mention = some (lead, list) := by
  unfold assignedList at h
  split at h
  · next hbegins =>
    obtain ⟨lead, hreach⟩ := reach_of_assigned h
    refine ⟨lead, ?_⟩
    rw [taken, if_pos ?_, hreach]
    rw [beginsName, Bool.and_eq_true] at hbegins
    cases hbefore : mention.1 with
    | nil => rfl
    | cons m before =>
      have hm := hbegins.1
      rw [hbefore, List.head?_cons, Option.any_some] at hm
      simp only [Bool.not_or, Bool.and_eq_true, Bool.not_eq_true', decide_eq_false_iff_not] at hm
      obtain ⟨⟨⟨⟨hletter, hline⟩, -⟩, -⟩, hdot⟩ := hm
      rw [List.head?_cons, Option.bind_some]
      cases hlast : (view m).getLast? with
      | none => rfl
      | some c =>
        have hc := List.mem_of_getLast? hlast
        have hfree : alphanumeric c = false ∧ c ≠ '_' ∧ c ≠ '.' := by
          obtain ⟨p, d⟩ := m
          have hblank : c ∈ blankChar d → alphanumeric c = false ∧ c ≠ '_' ∧ c ≠ '.' := by
            intro hmem
            rcases mem_blankChar hmem with rfl | rfl
            · exact ⟨hascii ' ' (by decide), by decide, by decide⟩
            · exact ⟨hascii '\n' (by decide), by decide, by decide⟩
          cases p with
          | bare | quote =>
            obtain rfl := List.mem_singleton.mp hc
            exact ⟨hletter, hline, hdot⟩
          | _ => exact hblank hc
        simp [nameBoundary, hfree.1, hfree.2.1, hfree.2.2]
  · cases h

theorem selected_eq : selected alphanumeric config =
    (mentions swapDevicesKey [] (marks .bare config)).findSome? (assignedList alphanumeric) := by
  unfold selected attributes
  induction mentions swapDevicesKey [] (marks .bare config) with
  | nil => rfl
  | cons mention ms ih =>
    obtain ⟨before, behind⟩ := mention
    rw [List.filterMap_cons, List.findSome?_cons, assignedList]
    dsimp only
    by_cases hbegins : beginsName alphanumeric before = true
    · rw [if_pos hbegins, if_pos hbegins]
      cases assigned behind with
      | none => exact ih
      | some value =>
        dsimp only
        rw [List.findSome?_cons, ih]
        rfl
    · rw [if_neg hbegins, if_neg hbegins]
      exact ih

theorem selected_eq_taken (hascii : OnAscii alphanumeric) (hstray : NoStray alphanumeric config) :
    selected alphanumeric config =
      (mentions swapDevicesKey [] (marks .bare config)).findSome? fun mention =>
        (taken alphanumeric mention).map Prod.snd := by
  rw [selected_eq]
  refine (findSome?_eq_of_first (fun mention list h => ?_) fun mention hfirst => ?_).symm
  · obtain ⟨lead, htaken⟩ := taken_of_assigned hascii h
    rw [htaken]
    rfl
  · simp only [Option.isSome_map] at hfirst
    exact hstray mention hfirst

theorem swapDevicesBlock_codeOnly (hascii : OnAscii alphanumeric) (hended : Ended .bare config) :
    swapDevicesBlock alphanumeric (codeOnly config) =
      (mentions swapDevicesKey [] (marks .bare config)).findSome? fun mention =>
        (taken alphanumeric mention).map (blockRange mention) := by
  rw [swapDevicesBlock, (codeOnly_agrees config).view hended]
  exact swapDevicesBlockFrom_eq (hascii 'e' (by decide)) (quotesMarked_marks _ _) []

/-- Where no list should be read none is. -/
theorem nixosSwapDevices_of_none (hascii : OnAscii alphanumeric) (hended : Ended .bare config)
    (hstray : NoStray alphanumeric config) (h : selected alphanumeric config = none) :
    nixosSwapDevices alphanumeric config = some [] := by
  have hnone : swapDevicesBlock alphanumeric (codeOnly config) = none := by
    rw [selected_eq_taken hascii hstray] at h
    rw [swapDevicesBlock_codeOnly hascii hended]
    rw [List.findSome?_eq_none_iff] at h ⊢
    intro mention hmention
    rw [Option.map_eq_none_iff]
    exact Option.map_eq_none_iff.mp (h mention hmention)
  rw [nixosSwapDevices, hnone]

/-- **The list that is read is the one that should be**, and its text reads as it stands. -/
theorem nixosSwapDevices_of_selected (hascii : OnAscii alphanumeric) (hended : Ended .bare config)
    (hstray : NoStray alphanumeric config) (h : selected alphanumeric config = some list) :
    marks .bare (chars list) = list ∧ nixosSwapDevices alphanumeric config =
      (scanDevices alphanumeric .bare none (chars list)).map (List.map String.ofList) := by
  rw [selected_eq_taken hascii hstray] at h
  obtain ⟨pre, mention, post, hsplit, hmap, hpre⟩ := List.findSome?_eq_some_iff.mp h
  obtain ⟨⟨lead, list'⟩, htaken, rfl⟩ := Option.map_eq_some_iff.mp hmap
  have hrange : swapDevicesBlock alphanumeric (codeOnly config) =
      some (blockRange mention (lead, list')) := by
    rw [swapDevicesBlock_codeOnly hascii hended]
    refine List.findSome?_eq_some_iff.mpr ⟨pre, mention, post, hsplit, ?_, fun e he => ?_⟩
    · rw [htaken]
      rfl
    · rw [Option.map_eq_none_iff]
      exact Option.map_eq_none_iff.mp (hpre e he)
  have hreach : reach mention.2 = some (lead, list') := by
    rw [taken] at htaken
    split at htaken
    · exact htaken
    · cases htaken
  have hmem : mention ∈ mentions swapDevicesKey [] (marks .bare config) :=
    hsplit ▸ List.mem_append_right _ List.mem_cons_self
  obtain ⟨front, hfront, hmarks⟩ := of_mem_mentions hmem
  obtain ⟨init, rest, hlist, hbehind⟩ := reach_eq_some hreach
  have hall : marks .bare config = front ++ inOpen swapDevicesKey ++ lead ++ list' ++ rest := by
    rw [hmarks, hbehind]
    simp only [List.append_assoc]
  have hconfig : config = chars (front ++ inOpen swapDevicesKey ++ lead) ++ chars list' ++
      chars rest := by
    rw [← chars_append, ← chars_append, ← hall, chars_marks]
  have hfirst : (blockRange mention (lead, list')).1 =
      size (chars (front ++ inOpen swapDevicesKey ++ lead)) := by
    have hbefore : size (chars mention.1) = size (chars front) := by
      rw [hfront, List.append_nil, chars, List.map_reverse, size_reverse]
      rfl
    rw [chars_append, chars_append, chars_inOpen, size_append, size_append, blockRange, hbefore]
    rfl
  have hslice : slice (blockRange mention (lead, list')).1
      (blockRange mention (lead, list')).2 config = some (chars list') := by
    have hlast : (blockRange mention (lead, list')).2 =
        (blockRange mention (lead, list')).1 + size (chars list') := rfl
    rw [hlast, hfirst, hconfig]
    exact slice_append _ _ _
  rw [nixosSwapDevices, hrange]
  dsimp only
  rw [hslice]
  subst hlist
  exact ⟨marks_list hall, rfl⟩

end Block

end DraconGuard
