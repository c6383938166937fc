import SelfmadeOS.Rendering
import Mathlib.Data.List.GetD

/-!
# The terminal (`terminal.cpp`)

`printf` formats into the slot at `head`, moves `head` and `tail`, and draws the slots from
`tail` on, one row each. The two commands that it ends with stand with the logger, which they
call back.
-/

namespace SelfmadeOS
set_option autoImplicit false
open CStrings

def maxTextLength : Nat := 80

structure Slots where
  rows : List (List Char)
  count : rows.length = 40
  width : ∀ row ∈ rows, row.length = maxTextLength

namespace Slots

def row (b : Slots) (i : Nat) : List Char := b.rows.getD i []

theorem row_length (b : Slots) {i : Nat} (hi : i < 40) : (b.row i).length = maxTextLength := by
  have hi' : i < b.rows.length := b.count ▸ hi
  apply b.width
  unfold row
  rw [List.getD_eq_getElem _ _ hi']
  exact List.getElem_mem hi'

def format (b : Slots) (i : Nat) (fom : List Char) (args : Nat → Arg) : Slots where
  rows := b.rows.set i (formatString fom (b.row i) maxTextLength args).output
  count := by rw [List.length_set, b.count]
  width := by
    intro row hrow
    by_cases hi : i < 40
    · rcases List.mem_or_eq_of_mem_set hrow with hmem | rfl
      · exact b.width row hmem
      · rw [formatString_length]
        exact b.row_length hi
    · rw [List.set_eq_of_length_le (by rw [b.count]; omega)] at hrow
      exact b.width row hrow

theorem format_row (b : Slots) {i : Nat} (hi : i < 40) (fom : List Char) (args : Nat → Arg) :
    (b.format i fom args).row i = (formatString fom (b.row i) maxTextLength args).output := by
  have hi' : i < b.rows.length := b.count ▸ hi
  unfold format row
  simp only
  rw [List.getD_eq_getElem _ _ (by rwa [List.length_set]), List.getElem_set_self]

def blank : Slots where
  rows := List.replicate 40 (List.replicate maxTextLength nul)
  count := List.length_replicate
  width := by
    intro row hrow
    rw [List.eq_of_mem_replicate hrow, List.length_replicate]

end Slots

/-- What `draw_text` gets: the place, the slot that is drawn and what stands in it. -/
structure TextRow where
  x : Int
  y : Int
  slot : Int
  string : List Char

structure Terminal where
  circularBuffer : Slots
  tail : Int
  head : Int

structure Message where
  fom : List Char
  args : Nat → Arg

namespace Terminal

/-- The slots as they are found; `kalloc` hands them out cleared. -/
def new (contents : Slots) : Terminal := ⟨contents, 0, 0⟩

def store (t : Terminal) (m : Message) : Terminal :=
  { t with
    circularBuffer := t.circularBuffer.format t.head.toNat m.fom m.args
    head := (t.head + 1).tmod 40 }

def scroll (t : Terminal) : Terminal :=
  if (t.head - t.tail).tmod 40 > 20 then
    if (t.head - t.tail).tmod 40 > 21 then t
    else { t with tail := (t.tail + 1).tmod 20 }
  else t

def drawRow (t : Terminal) (i : Nat) : TextRow :=
  let slot := (t.tail + i).tmod 40
  { x := 0, y := i * 4 * 8, slot := slot, string := t.circularBuffer.row slot.toNat }

def drawRows (t : Terminal) : List TextRow :=
  (List.range ((t.head - t.tail).tmod 40).toNat).map t.drawRow

/-- The terminal after a call, and the rows that the call draws. -/
def printf (t : Terminal) (m : Message) : Terminal × List TextRow :=
  let t := (t.store m).scroll
  (t, t.drawRows)

def after (t : Terminal) : List Message → Terminal
  | [] => t
  | m :: rest => (t.printf m).1.after rest

def written (t : Terminal) : List Message → List Int
  | [] => []
  | m :: rest => t.head :: (t.printf m).1.written rest

/-- The last lines: the latest slot at the bottom, and at most twenty of them. -/
def lastLines (t : Terminal) (written : List Int) : List TextRow :=
  (written.drop (written.length - 20)).mapIdx fun i slot =>
    { x := 0, y := i * 4 * 8, slot := slot, string := t.circularBuffer.row slot.toNat }

end Terminal

section cursors

theorem tmod_forty_of_lt {a : Int} (hlow : -40 < a) (hhigh : a < 40) : a.tmod 40 = a := by
  rcases Int.le_total 0 a with h | h
  · exact Int.tmod_eq_of_lt h hhigh
  · have hneg : (-a).tmod 40 = -a := Int.tmod_eq_of_lt (by omega) (by omega)
    rw [Int.neg_tmod] at hneg
    omega

/-- Both cursors, as the number of calls determines them: `tail` stays at 19. -/
structure CalledTimes (t : Terminal) (n : Nat) : Prop where
  head : t.head = (n % 40 : Nat)
  tail : t.tail = (min (n - 20) 19 : Nat)

theorem calledTimes_new (contents : Slots) : CalledTimes (Terminal.new contents) 0 := ⟨rfl, rfl⟩

variable {t : Terminal} {n : Nat}

theorem CalledTimes.store (h : CalledTimes t n) (m : Message) :
    (t.store m).head = ((n + 1) % 40 : Nat) := by
  unfold Terminal.store
  simp only [h.head]
  rw [Int.tmod_eq_emod_of_nonneg (by omega)]
  omega

theorem CalledTimes.printf (h : CalledTimes t n) (m : Message) :
    CalledTimes (t.printf m).1 (n + 1) := by
  have hhead := h.store m
  have htail : (t.store m).tail = (min (n - 20) 19 : Nat) := h.tail
  have hdist : ((t.store m).head - (t.store m).tail).tmod 40 =
      ((n + 1) % 40 : Nat) - (min (n - 20) 19 : Nat) := by
    rw [hhead, htail]
    apply tmod_forty_of_lt <;> omega
  unfold Terminal.printf Terminal.scroll
  simp only
  rw [hdist]
  by_cases hscroll : 20 ≤ n ∧ n < 39
  · rw [if_pos (by omega), if_neg (by omega)]
    refine ⟨hhead, ?_⟩
    simp only [htail]
    rw [Int.tmod_eq_of_lt (by omega) (by omega)]
    omega
  · rw [if_neg (by omega)]
    refine ⟨hhead, ?_⟩
    rw [htail]
    omega

theorem CalledTimes.after (h : CalledTimes t n) (calls : List Message) :
    CalledTimes (t.after calls) (n + calls.length) := by
  induction calls generalizing t n with
  | nil => exact h
  | cons m rest ih =>
    have hrest := ih (h.printf m)
    rwa [Nat.add_assoc, Nat.add_comm 1] at hrest

theorem CalledTimes.written (h : CalledTimes t n) (calls : List Message) :
    t.written calls = (List.range' n calls.length).map fun k => ((k % 40 : Nat) : Int) := by
  induction calls generalizing t n with
  | nil => rfl
  | cons m rest ih =>
    unfold Terminal.written
    rw [ih (h.printf m), h.head]
    rfl

end cursors

section drawing
variable {t : Terminal} {n : Nat}

def rowsDrawn (n : Nat) : Nat := n % 40 - min (n - 20) 19

theorem CalledTimes.drawRows (h : CalledTimes t n) :
    t.drawRows = (List.range (rowsDrawn n)).map t.drawRow := by
  unfold Terminal.drawRows rowsDrawn
  rw [h.head, h.tail, tmod_forty_of_lt (by omega) (by omega)]
  congr 2
  omega

theorem CalledTimes.drawRow_slot (h : CalledTimes t n) {i : Nat} (hi : i < 20) :
    (t.drawRow i).slot = ((min (n - 20) 19 + i) % 40 : Nat) := by
  unfold Terminal.drawRow
  simp only [h.tail]
  rw [tmod_forty_of_lt (by omega) (by omega)]
  omega

theorem lastLines_length (t : Terminal) (written : List Int) :
    (t.lastLines written).length = min written.length 20 := by
  unfold Terminal.lastLines
  rw [List.length_mapIdx, List.length_drop]
  omega

theorem rowsDrawn_eq_iff {n : Nat} (hn : 0 < n) :
    rowsDrawn n = min n 20 ↔ n ≤ 39 ∨ n % 40 = 39 := by
  unfold rowsDrawn
  omega

def slotsOf (n : Nat) : List Int := (List.range' 0 n).map fun k => ((k % 40 : Nat) : Int)

theorem slotsOf_length (n : Nat) : (slotsOf n).length = n := by
  unfold slotsOf
  rw [List.length_map, List.length_range']

theorem slotsOf_getElem {n k : Nat} (hk : k < (slotsOf n).length) :
    (slotsOf n)[k] = ((k % 40 : Nat) : Int) := by
  simp only [slotsOf, List.getElem_map, List.getElem_range', Nat.zero_add, Nat.one_mul]

theorem CalledTimes.drawRows_eq_iff (h : CalledTimes t n) (hn : 0 < n) :
    t.drawRows = t.lastLines (slotsOf n) ↔ n ≤ 39 ∨ n % 40 = 39 := by
  rw [← rowsDrawn_eq_iff hn]
  constructor
  · intro heq
    have hlength := congrArg List.length heq
    rwa [h.drawRows, lastLines_length, slotsOf_length, List.length_map,
      List.length_range] at hlength
  · intro hcount
    have hwhich := (rowsDrawn_eq_iff hn).mp hcount
    apply List.ext_getElem
    · rw [h.drawRows, lastLines_length, slotsOf_length, List.length_map, List.length_range,
        hcount]
    · intro i hi _
      simp only [h.drawRows, List.length_map, List.length_range, hcount] at hi
      have hslot : (t.drawRow i).slot = ((n - 20 + i) % 40 : Nat) := by
        rw [h.drawRow_slot (by omega)]
        omega
      have hrow : t.drawRow i =
          ⟨0, i * 4 * 8, (t.drawRow i).slot, t.circularBuffer.row (t.drawRow i).slot.toNat⟩ := rfl
      simp only [h.drawRows, Terminal.lastLines, List.getElem_map, List.getElem_range,
        List.getElem_mapIdx, List.getElem_drop, slotsOf_getElem, slotsOf_length]
      rw [hrow, hslot]

end drawing

/-- A call shows the last lines up to the thirty-ninth, and then in one of forty calls. -/
theorem printf_lastLines_iff (contents : Slots) (earlier : List Message) (m : Message) :
    (((Terminal.new contents).after earlier).printf m).2 =
        (((Terminal.new contents).after earlier).printf m).1.lastLines
          ((Terminal.new contents).written (earlier ++ [m])) ↔
      earlier.length + 1 ≤ 39 ∨ (earlier.length + 1) % 40 = 39 := by
  have hcalled := ((calledTimes_new contents).after earlier).printf m
  rw [Nat.zero_add] at hcalled
  have hwritten := (calledTimes_new contents).written (earlier ++ [m])
  rw [List.length_append, List.length_singleton] at hwritten
  rw [hwritten]
  exact hcalled.drawRows_eq_iff (Nat.succ_pos _)

theorem fortieth_draws_nothing (contents : Slots) {earlier : List Message}
    (h : earlier.length = 39) (m : Message) :
    (((Terminal.new contents).after earlier).printf m).2 = [] := by
  have hcalled := ((calledTimes_new contents).after earlier).printf m
  rw [h] at hcalled
  exact hcalled.drawRows

/-- The fortieth call draws no row at all. -/
theorem printf_lastLines_fortieth :
    let hallo : Message := ⟨"hallo world".toList ++ [nul], fun _ => ⟨0, CString.empty⟩⟩
    let t := (Terminal.new Slots.blank).after (List.replicate 39 hallo)
    (t.printf hallo).2 ≠ (t.printf hallo).1.lastLines
      ((Terminal.new Slots.blank).written (List.replicate 39 hallo ++ [hallo])) := by
  intro hallo t heq
  have hlength := congrArg List.length heq
  rw [fortieth_draws_nothing Slots.blank List.length_replicate hallo, lastLines_length,
    (calledTimes_new Slots.blank).written, List.length_map, List.length_range',
    List.length_append, List.length_replicate] at hlength
  cases hlength

end SelfmadeOS
