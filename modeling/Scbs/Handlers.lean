import Scbs.Comms.RoundTrip
import Scbs.Device

/-!
# Registers and responses

The texts a cell puts into the packets it sends are ones a field can carry:
register values (`onWire_registerText`) and error texts (`onWire_errStr`).
-/

namespace Scbs

open CLib

section Texts

variable {F : Type} [CFloat F]

/-- Digits and letters of a number text stay clear of the delimiters. -/
theorem onWire_of_plain {v : List UInt8} (hlen : v.length ≤ 19)
    (hv : ∀ c ∈ v, c = ch '-' ∨ c = ch '.' ∨ c = ch ':' ∨ c = ch '_' ∨ digitVal c < 36) :
    OnWire v := by
  exact ⟨hlen, fun h => absurd (hv 0 h) (by decide), fun h => absurd (hv comma h) (by decide),
    fun h => absurd (hv star h) (by decide), fun h => absurd (hv 10 h) (by decide)⟩

theorem onWire_printF2 (x : F) : OnWire (snprintf (kMaxPacketFieldLen - 1) (CFloat.printF2 x)) := by
  refine onWire_of_plain ?_ ?_
  · rw [snprintf, List.length_take, kMaxPacketFieldLen]
    omega
  · intro c hc
    rcases CFloat.printF2_plain x c (List.mem_of_mem_take hc) with h | h | h
    · exact Or.inl h
    · exact Or.inr (Or.inl h)
    · exact Or.inr (Or.inr (Or.inr (Or.inr h)))

theorem snprintf_printF2_ne_nil (x : F) :
    snprintf (kMaxPacketFieldLen - 1) (CFloat.printF2 x) ≠ [] := by
  have hpos := List.length_pos_iff.2 (CFloat.printF2_ne_nil x)
  refine List.length_pos_iff.1 ?_
  rw [snprintf, List.length_take, kMaxPacketFieldLen]
  omega

/-- The addresses a register can be read at. -/
def Readable (addr : UInt32) : Prop :=
  addr = kRegAddrSetOutputVoltage ∨ addr = kRegAddrReadOutputCurrent ∨
    addr = kRegAddrReadFirmwareVersion

instance (addr : UInt32) : Decidable (Readable addr) := inferInstanceAs (Decidable (_ ∨ _ ∨ _))

namespace SCBS

theorem registerText_isSome_iff (v c : F) (addr : UInt32) :
    (∃ text, registerText v c addr = some text) ↔ Readable addr := by
  unfold registerText Readable
  by_cases hvolt : addr = kRegAddrSetOutputVoltage
  · rw [if_pos hvolt]
    exact iff_of_true ⟨_, rfl⟩ (Or.inl hvolt)
  by_cases hcur : addr = kRegAddrReadOutputCurrent
  · rw [if_neg hvolt, if_pos hcur]
    exact iff_of_true ⟨_, rfl⟩ (Or.inr (Or.inl hcur))
  by_cases hfirm : addr = kRegAddrReadFirmwareVersion
  · rw [if_neg hvolt, if_neg hcur, if_pos hfirm]
    exact iff_of_true ⟨_, rfl⟩ (Or.inr (Or.inr hfirm))
  · rw [if_neg hvolt, if_neg hcur, if_neg hfirm]
    exact iff_of_false (by simp) (by simp [hvolt, hcur, hfirm])

/-- **The texts a register can read as.** -/
theorem registerText_cases {v c : F} {addr : UInt32} {text : List UInt8}
    (h : registerText v c addr = some text) :
    text = snprintf (kMaxPacketFieldLen - 1) (CFloat.printF2 v) ∨
      text = snprintf (kMaxPacketFieldLen - 1) (CFloat.printF2 c) ∨
      (addr = kRegAddrReadFirmwareVersion ∧
        text = snprintf (kMaxPacketFieldLen - 1) scbsFirmwareVersion) := by
  unfold registerText at h
  by_cases hvolt : addr = kRegAddrSetOutputVoltage
  · rw [if_pos hvolt] at h
    exact Or.inl (Option.some.inj h).symm
  rw [if_neg hvolt] at h
  by_cases hcur : addr = kRegAddrReadOutputCurrent
  · rw [if_pos hcur] at h
    exact Or.inr (Or.inl (Option.some.inj h).symm)
  rw [if_neg hcur] at h
  by_cases hfirm : addr = kRegAddrReadFirmwareVersion
  · rw [if_pos hfirm] at h
    exact Or.inr (Or.inr ⟨hfirm, (Option.some.inj h).symm⟩)
  · rw [if_neg hfirm] at h
    exact absurd h (by simp)

/-- **A register text can be carried by a field.** -/
theorem onWire_registerText {v c : F} {addr : UInt32} {text : List UInt8}
    (h : registerText v c addr = some text) : OnWire text ∧ text ≠ [] := by
  rcases registerText_cases h with rfl | rfl | ⟨-, rfl⟩
  · exact ⟨onWire_printF2 v, snprintf_printF2_ne_nil v⟩
  · exact ⟨onWire_printF2 c, snprintf_printF2_ne_nil c⟩
  · exact ⟨onWire_of_plain (by decide) (by decide +kernel), by decide⟩

/-- **So can an error text.** -/
theorem onWire_errStr (errCode : UInt16) : OnWire (errStr errCode) := by
  unfold errStr
  by_cases hnone : errCode = kErrCodeNone
  · rw [if_pos hnone]
    exact onWire_of_plain (by decide) (by decide +kernel)
  · rw [if_neg hnone]
    refine onWire_of_plain ?_ ?_
    · rw [snprintf, List.length_take, kMaxPacketFieldLen]
      omega
    · intro c hc
      have herr : ∀ c ∈ ascii "ERR:", c = ch '-' ∨ c = ch '.' ∨ c = ch ':' ∨ c = ch '_' ∨
          digitVal c < 36 := by decide +kernel
      rcases List.mem_append.1 (List.mem_of_mem_take hc) with h | h
      · exact herr c h
      · exact Or.inr (Or.inr (Or.inr (Or.inr
          (lt_trans (digitVal_of_mem_printNat (by omega) (by omega) h) (by omega)))))

end SCBS

end Texts

end Scbs
