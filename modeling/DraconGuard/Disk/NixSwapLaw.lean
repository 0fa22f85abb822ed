import DraconGuard.Disk.NixSearch
import DraconGuard.Disk.NixDevices

/-!
# What is found of a configuration: the law

**`readsDevices_of_readable`**: `nixos_swap_devices` finds what it should of a configuration that is
`Readable`, and `code_only` keeps the length where no block comment is left open, and only there.
-/

namespace DraconGuard

open NixText TextSlice

section Claim

variable {alphanumeric : Char → Bool} {config : List Char}

theorem nixosSwapDevices_of_readable (hascii : OnAscii alphanumeric)
    (h : Readable alphanumeric config) :
    nixosSwapDevices alphanumeric config = some (listedDevices alphanumeric config) := by
  unfold listedDevices
  cases hselected : selected alphanumeric config with
  | none => exact nixosSwapDevices_of_none hascii h.ended h.noStray hselected
  | some list =>
    obtain ⟨hmarks, hdevices⟩ := nixosSwapDevices_of_selected hascii h.ended h.noStray hselected
    have hplain := h.plain list hselected
    rw [← hmarks] at hplain
    have hfinds := findsDevices _ (chars list) (Nat.le_refl _) .bare [] trivial hplain
    unfold FindsDevices at hfinds
    rw [hmarks] at hfinds
    dsimp only
    rw [hdevices, filterMap_attributes]
    exact congrArg (Option.map (List.map String.ofList)) hfinds

/-- **The devices of a readable configuration are read**, and the length is kept exactly where no
block comment is left open. -/
theorem readsDevices_of_readable (hascii : OnAscii alphanumeric) :
    (Readable alphanumeric config → ReadsDevices alphanumeric config) ∧
      (size (codeOnly config) = size config ↔ Ended .bare config) :=
  ⟨fun h => ⟨(codeOnly_size_iff config).mpr h.ended, nixosSwapDevices_of_readable hascii h⟩,
    codeOnly_size_iff config⟩

end Claim

/-- The text of the test of `lib.mkForce`, with the comment in front. -/
theorem readsDevices_of_readable_mkForce : ReadsDevices Char.isAlphanum
    ("# Swap managed explicitly via zram and swapDevices below.\n" ++
      "swapDevices = lib.mkForce [ \x7b device = \"/a\"; \x7d ];").toList :=
  (readsDevices_of_readable fun _ _ => rfl).1 (by decide +kernel)

/-- A comment without its end, a character of two bytes between `''`, a name that is inherited and
a longer one. -/
theorem not_readsDevices :
    ¬ ReadsDevices Char.isAlphanum "/*/".toList ∧
    ¬ ReadsDevices Char.isAlphanum
      "swapDevices = [ \x7b label = ''ä''; device = \"/a\"; \x7d ];".toList ∧
    ¬ ReadsDevices Char.isAlphanum
      "inherit (x) swapDevices; y = [ \x7b device = \"/a\"; \x7d ];".toList ∧
    ¬ ReadsDevices Char.isAlphanum "swapDevicesOld = [ \x7b device = \"/a\"; \x7d ];".toList := by
  refine ⟨fun h => ?_, fun h => ?_, fun h => ?_, fun h => ?_⟩
  · exact absurd h.sameSize (by decide +kernel)
  · exact absurd h.exact (by decide +kernel)
  · exact absurd h.exact (by decide +kernel)
  · exact absurd h.exact (by decide +kernel)

end DraconGuard
