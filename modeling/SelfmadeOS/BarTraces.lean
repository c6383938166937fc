import SelfmadeOS.BarDecoding
import SelfmadeOS.BarRegions

/-!
# What sizing and a failed call leave behind

`BAR_size` undoes its stores in every branch, and stores ones only while the device does not
decode its addresses.
-/

namespace SelfmadeOS
set_option autoImplicit false
open StateRuns

section bits
variable {w : Nat}

/-- What is not in the mask stays, and the rest is put back. -/
theorem restored_bits (x value mask : BitVec w) :
    (x &&& ~~~mask ||| value &&& mask) &&& ~~~mask ||| x &&& mask = x := by
  ext i hi
  simp only [BitVec.getElem_and, BitVec.getElem_or, BitVec.getElem_not]
  cases mask[i] <;> simp

theorem half_masked (x mask : BitVec 32) :
    (x.setWidth 16).setWidth 32 &&& (mask &&& 0xFFFF) = x &&& (mask &&& 0xFFFF) := by
  have hlow : (0xFFFF : BitVec 32) = lowBits 32 16 := rfl
  ext i hi
  rw [hlow]
  simp only [BitVec.getElem_and, getElem_lowBits, BitVec.getElem_setWidth, BitVec.getLsbD_setWidth]
  by_cases hi16 : i < 16
  · simp [hi16, BitVec.getLsbD_eq_getElem hi]
  · simp [hi16]

end bits

namespace PciFunction
variable (f : PciFunction)

/-- The two bits that let a device answer to its addresses, as far as they cannot be cleared. -/
def stuckDecode : BitVec 16 := (f.register 1 &&& ~~~f.writable 1 &&& 3).setWidth 16

/-- Both bits can be cleared, or are zero for good. -/
def DecodeClearable : Prop := f.stuckDecode = 0

theorem ext_register {g h : PciFunction} (hregister : g.register = h.register)
    (hwritable : g.writable = h.writable) : g = h := by
  cases g
  cases h
  simp only at hregister hwritable
  subst hregister hwritable
  rfl

theorem write_restore (i : Nat) (value : BitVec 32) :
    (f.write i value).write i (f.register i) = f := by
  refine ext_register (funext fun j => ?_) rfl
  by_cases hji : j = i
  · subst hji
    rw [write_same, stored, write_same]
    exact restored_bits _ _ _
  · rw [write_other _ _ _ _ hji, write_other _ _ _ _ hji]

theorem write_comm {i j : Nat} (hij : i ≠ j) (a b : BitVec 32) :
    (f.write i a).write j b = (f.write j b).write i a := by
  refine ext_register (funext fun k => ?_) rfl
  by_cases hki : k = i
  · subst hki
    rw [write_other _ _ _ _ hij, write_same, write_same]
    simp only [stored, write_other f j k b hij]
    rfl
  · rw [write_other _ i k _ hki]
    by_cases hkj : k = j
    · subst hkj
      rw [write_same, write_same]
      simp only [stored, write_other f i k a hki]
      rfl
    · rw [write_other _ j k _ hkj, write_other _ i k _ hki, write_other _ j k _ hkj]

theorem write_pair_restore {i j : Nat} (hij : i ≠ j) (a b : BitVec 32) :
    (((f.write i a).write j b).write i (f.register i)).write j (f.register j) = f := by
  rw [write_comm (f.write i a) hij.symm, f.write_restore, f.write_restore]

theorem write_command {i : Nat} (hi : 1 ≠ i) (value : BitVec 32) :
    (f.write i value).command = f.command := by
  unfold command
  rw [write_other f i 1 value hi]

theorem writeLow_restore (command : BitVec 16) :
    (f.writeLow 1 command).writeLow 1 f.command = f := by
  refine ext_register (funext fun j => ?_) rfl
  by_cases hj : j = 1
  · subst hj
    simp only [writeLow, if_true, PciFunction.command, half_masked]
    exact restored_bits _ _ _
  · simp only [writeLow, if_neg hj]

theorem writeLow_same : f.writeLow 1 f.command = f := by
  refine ext_register (funext fun j => ?_) rfl
  by_cases hj : j = 1
  · subst hj
    simp only [writeLow, if_true, PciFunction.command, half_masked]
    ext i hi
    simp only [BitVec.getElem_and, BitVec.getElem_or, BitVec.getElem_not]
    cases (f.writable 1)[i] <;> cases (0xFFFF : BitVec 32)[i] <;> simp
  · simp only [writeLow, if_neg hj]

theorem command_cleared :
    (f.writeLow 1 (f.command &&& 0xFFFC)).command &&& 3 = f.stuckDecode := by
  have hlow : (3 : BitVec 16) = lowBits 16 2 := rfl
  have hlow' : (3 : BitVec 32) = lowBits 32 2 := rfl
  have hhigh : (0xFFFC : BitVec 16) = ~~~lowBits 16 2 := rfl
  have hhalf : (0xFFFF : BitVec 32) = lowBits 32 16 := rfl
  ext i hi
  have h32 : i < 32 := by omega
  rw [stuckDecode, hlow, hlow', BitVec.getElem_and, getElem_lowBits, BitVec.getElem_setWidth,
    BitVec.getLsbD_eq_getElem h32, BitVec.getElem_and, BitVec.getElem_and, BitVec.getElem_not,
    getElem_lowBits]
  by_cases hi2 : i < 2
  · have hmask : (lowBits 16 2).getLsbD i = true := by
      rw [BitVec.getLsbD_eq_getElem hi, getElem_lowBits, decide_eq_true hi2]
    simp only [writeLow, PciFunction.command, if_true, hhigh, hhalf, BitVec.getElem_setWidth,
      BitVec.getLsbD_eq_getElem h32, BitVec.getElem_or, BitVec.getElem_and, BitVec.getElem_not,
      getElem_lowBits, hi, hi2, decide_true, BitVec.getLsbD_and, BitVec.getLsbD_not, hmask,
      Bool.and_true, Bool.not_true, Bool.and_false, Bool.false_and, Bool.or_false]
  · rw [decide_eq_false hi2, Bool.and_false, Bool.and_false]

end PciFunction

/-- The registers hold what they held, memory too, and between the stores to the command register
at both ends every store to a BAR finds the decode bits as given. -/
structure LeavesNoTrace (decode : BitVec 16) (s t : PciMachine) : Prop where
  functions : t.functions = s.functions
  kernel : t.kernel.toKernel = s.kernel.toKernel
  stores : ∃ (first : ConfigStore) (bars last : List ConfigStore),
    t.stores = s.stores ++ (first :: bars ++ last) ∧ first.off = 4 ∧
      (∀ c ∈ bars, c.off ≠ 4 ∧ c.before.command &&& 3 = decode) ∧ ∀ c ∈ last, c.off = 4

/-- What has happened since the device was disabled. -/
structure WhileDisabled (decode : BitVec 16) (bdf : BusDeviceFunction) (s t : PciMachine) :
    Prop where
  command : (t.functions bdf).command &&& 3 = decode
  kernel : t.kernel.toKernel = s.kernel.toKernel
  stores : ∃ bars, t.stores = s.stores ++ bars ∧
    ∀ c ∈ bars, c.off ≠ 4 ∧ c.before.command &&& 3 = decode

section restores
variable (s : PciMachine) (bdf : BusDeviceFunction)

theorem configured_functions (i : Nat) (value : BitVec 32) :
    (s.configured bdf i value).functions =
      Function.update s.functions bdf ((s.functions bdf).write i value) := rfl

theorem commanded_functions (command : BitVec 16) :
    (s.commanded bdf command).functions =
      Function.update s.functions bdf ((s.functions bdf).writeLow 1 command) := rfl

theorem configured_back (i : Nat) (value : BitVec 32) :
    ((s.configured bdf i value).configured bdf i ((s.functions bdf).register i)).functions =
      s.functions := by
  rw [configured_functions, configured_same, PciFunction.write_restore, configured_functions,
    Function.update_idem, Function.update_eq_self]

theorem configured_pair_back {i j : Nat} (hij : i ≠ j) (a b : BitVec 32) :
    ((((s.configured bdf i a).configured bdf j b).configured bdf i
      ((s.functions bdf).register i)).configured bdf j ((s.functions bdf).register j)).functions =
        s.functions := by
  rw [configured_functions, configured_same, configured_same, configured_same,
    PciFunction.write_pair_restore _ hij, configured_functions, configured_functions,
    configured_functions, Function.update_idem, Function.update_idem, Function.update_idem,
    Function.update_eq_self]

theorem commanded_back {u : PciMachine} {command : BitVec 16}
    (h : u.functions = (s.commanded bdf command).functions) :
    (u.commanded bdf (s.functions bdf).command).functions = s.functions := by
  rw [commanded_functions, h, commanded_same, PciFunction.writeLow_restore, commanded_functions,
    Function.update_idem, Function.update_eq_self]

theorem commanded_again {u : PciMachine} (h : u.functions = s.functions) :
    (u.commanded bdf (s.functions bdf).command).functions = s.functions := by
  rw [commanded_functions, h, PciFunction.writeLow_same, Function.update_eq_self]

variable {s bdf} {decode : BitVec 16}

theorem WhileDisabled.configured {t : PciMachine} (h : WhileDisabled decode bdf s t)
    (barIndex : Nat) (value : BitVec 32) :
    WhileDisabled decode bdf s (t.configured bdf (barRegister barIndex) value) := by
  obtain ⟨hcommand, hkernel, bars, hstores, hbars⟩ := h
  refine ⟨?_, hkernel, bars ++ [⟨bdf, 4 * barRegister barIndex, value, t.functions bdf⟩], ?_, ?_⟩
  · rw [configured_same, PciFunction.write_command _ (barRegister_ne_one barIndex).symm]
    exact hcommand
  · rw [← List.append_assoc, ← hstores]
    rfl
  · rw [List.forall_mem_append, List.forall_mem_singleton]
    have hbar : 4 * barRegister barIndex ≠ 4 := by
      unfold barRegister
      omega
    exact ⟨hbars, hbar, hcommand⟩

theorem WhileDisabled.commanded {u : PciMachine} {command : BitVec 16}
    (h : WhileDisabled decode bdf (s.commanded bdf command) u)
    (hback : u.functions = (s.commanded bdf command).functions) :
    LeavesNoTrace decode s (u.commanded bdf (s.functions bdf).command) := by
  obtain ⟨-, hkernel, bars, hstores, hbars⟩ := h
  refine ⟨commanded_back s bdf hback, hkernel,
    ⟨bdf, 4, command.setWidth 32, s.functions bdf⟩, bars,
    [⟨bdf, 4, (s.functions bdf).command.setWidth 32, u.functions bdf⟩], ?_, rfl, hbars, ?_⟩
  · have hlast : (u.commanded bdf (s.functions bdf).command).stores =
      u.stores ++ [⟨bdf, 4, (s.functions bdf).command.setWidth 32, u.functions bdf⟩] := rfl
    rw [hlast, hstores]
    simp only [PciMachine.commanded, List.append_assoc, List.cons_append, List.nil_append]
  · exact List.forall_mem_singleton.mpr rfl

theorem LeavesNoTrace.commanded {t : PciMachine} (h : LeavesNoTrace decode s t) :
    LeavesNoTrace decode s (t.commanded bdf (s.functions bdf).command) := by
  obtain ⟨hfunctions, hkernel, first, bars, last, hstores, hfirst, hbars, hlast⟩ := h
  refine ⟨commanded_again s bdf hfunctions, hkernel, first, bars,
    last ++ [⟨bdf, 4, (s.functions bdf).command.setWidth 32, t.functions bdf⟩], ?_, hfirst, hbars,
    ?_⟩
  · rw [← List.append_assoc (first :: bars), ← List.append_assoc s.stores, ← hstores]
    rfl
  · rw [List.forall_mem_append, List.forall_mem_singleton]
    exact ⟨hlast, rfl⟩

end restores

theorem barSize_restores (s : PciMachine) (bdf : BusDeviceFunction) (barIndex : Nat) :
    ∃ size t, barSize bdf barIndex s = .ok size t ∧
      LeavesNoTrace (s.functions bdf).stuckDecode s t := by
  have hnext : barRegister barIndex ≠ barRegister (barIndex + 1) :=
    barRegister_ne (Nat.ne_of_lt (Nat.lt_succ_self barIndex))
  have hstart : WhileDisabled (s.functions bdf).stuckDecode bdf
      (s.commanded bdf ((s.functions bdf).command &&& 0xFFFC))
      (s.commanded bdf ((s.functions bdf).command &&& 0xFFFC)) := by
    refine ⟨?_, rfl, [], (List.append_nil _).symm, List.forall_mem_nil _⟩
    rw [commanded_same]
    exact PciFunction.command_cleared _
  rw [barSize]
  simp only [readCommand_bind, writeCommand_bind, readConfig_bind]
  split
  · rw [readConfig_bind, writeConfig_bind, readConfig_bind, writeConfig_bind]
    refine ⟨_, _, rfl, ((hstart.configured _ _).configured _ _).commanded ?_⟩
    exact configured_back _ bdf _ _
  rw [readConfig_bind]
  split
  · rw [readConfig_bind, readConfig_bind, writeConfig_bind, writeConfig_bind, readConfig_bind,
      readConfig_bind, writeConfig_bind, writeConfig_bind, writeCommand_bind]
    have hones := (hstart.configured barIndex 0xFFFFFFFF).configured (barIndex + 1) 0xFFFFFFFF
    refine ⟨_, _, rfl, (((hones.configured _ _).configured _ _).commanded ?_).commanded⟩
    exact configured_pair_back _ bdf hnext _ _
  · have hlogged : WhileDisabled (s.functions bdf).stuckDecode bdf
        (s.commanded bdf ((s.functions bdf).command &&& 0xFFFC))
        { s.commanded bdf ((s.functions bdf).command &&& 0xFFFC) with
          kernel := s.kernel.logged "Other implementation needed" } :=
      ⟨hstart.command, rfl, hstart.stores⟩
    exact ⟨_, _, rfl, hlogged.commanded rfl⟩

theorem barSize_leavesNoTrace (s : PciMachine) (bdf : BusDeviceFunction) (barIndex : Nat)
    (hclear : (s.functions bdf).DecodeClearable) :
    ∃ size t, barSize bdf barIndex s = .ok size t ∧ LeavesNoTrace 0 s t := by
  rw [← hclear]
  exact barSize_restores s bdf barIndex

def enabledGpu : PciFunction where
  register i := if i = 1 then 6 else gpuBar4.register i
  writable i := if i = 1 then 0x407 else gpuBar4.writable i

theorem barSize_leavesNoTrace_gpu :
    ∃ size t, barSize bootFunction 4 (.start (boot imageLayout zeroRam) enabledGpu) =
      .ok size t ∧ LeavesNoTrace 0 (.start (boot imageLayout zeroRam) enabledGpu) t := by
  have hclear : enabledGpu.DecodeClearable := by
    unfold PciFunction.DecodeClearable
    decide
  exact barSize_leavesNoTrace _ bootFunction 4 hclear

section failing
variable (s : PciMachine) (bdf : BusDeviceFunction) (barIndex : Nat)

end failing

end SelfmadeOS
