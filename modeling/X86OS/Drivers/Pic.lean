import X86OS.Drivers.Ports

set_option autoImplicit false

namespace X86OS.Drivers

def pic1Command : Nat := 0x20
def pic1Data : Nat := 0x21
def pic2Command : Nat := 0xA0
def pic2Data : Nat := 0xA1

structure Pic where
  picMask : BitVec 16
  ports : Ports

-- `init_pic` reads the mask the controllers hold; `imr1` and `imr2` are what they answer.
def initPic (imr1 imr2 : BitVec 8) (ports : Ports) : Pic :=
  let ports := ioWait (outb pic2Command 0x11 (outb pic1Command 0x11 ports))
  let ports := ioWait (outb pic2Data 0x28 (outb pic1Data 0x20 ports))
  let ports := ioWait (outb pic2Data 0x02 (outb pic1Data 0x04 ports))
  let ports := ioWait (outb pic2Data 0x01 (outb pic1Data 0x01 ports))
  ⟨(imr2.setWidth 32 <<< 8 ||| imr1.setWidth 32).setWidth 16, ports⟩

-- The shift stands behind the cast: `(uint8_t)pic_mask >> 8`.
def picWriteMask (pic : Pic) : Pic :=
  let master := pic.picMask.setWidth 8 &&& 0xFF
  let slave := ((pic.picMask.setWidth 8).setWidth 32 >>> 8).setWidth 8
  { pic with ports := outb pic2Data slave (outb pic1Data master pic.ports) }

def picMaskIrq (irq : Nat) (pic : Pic) : Pic :=
  picWriteMask { pic with picMask := (pic.picMask.setWidth 32 ||| 1#32 <<< irq).setWidth 16 }

def picUnmmaskRqp (irq : Nat) (pic : Pic) : Pic :=
  let mask := (pic.picMask.setWidth 32 &&& ~~~(1#32 <<< irq)).setWidth 16
  let mask := if mask &&& 0xFF00 ≠ 0xFF00 then (mask.setWidth 32 &&& ~~~(1#32 <<< 2)).setWidth 16 else mask
  picWriteMask { pic with picMask := mask }

inductive Request where
  | mask (irq : Nat)
  | unmask (irq : Nat)
deriving DecidableEq

def Request.line : Request → Nat
  | mask irq => irq
  | unmask irq => irq

def Request.isMask : Request → Bool
  | mask _ => true
  | unmask _ => false

def serve (pic : Pic) : Request → Pic
  | .mask irq => picMaskIrq irq pic
  | .unmask irq => picUnmmaskRqp irq pic

def picRun (requests : List Request) (pic : Pic) : Pic := requests.foldl serve pic

-- The two bytes of the shadow that belong to the two controllers.
def masterByte (mask : BitVec 16) : BitVec 8 := mask.setWidth 8
def slaveByte (mask : BitVec 16) : BitVec 8 := (mask >>> 8).setWidth 8

-- Whether a controller holds the line back: the bit of the last byte its data port got.
def isMasked (pic : Pic) (line : Nat) : Bool :=
  if line < 8 then ((lastOut pic1Data pic.ports).getD 0).getLsbD line
  else ((lastOut pic2Data pic.ports).getD 0).getLsbD (line - 8)

def lastRequest (line : Nat) (requests : List Request) : Option Request :=
  requests.reverse.find? (fun r => r.line = line)

-- The controllers after the calls `done`, against the shadow and against what was asked for.
structure InStep (initial : BitVec 16) (done : List Request) (pic : Pic) : Prop where
  master : lastOut pic1Data pic.ports = some (masterByte pic.picMask)
  slave : lastOut pic2Data pic.ports = some (slaveByte pic.picMask)
  masked : ∀ line, line < 16 → lastRequest line done = some (.mask line) → isMasked pic line = true ∨
    line = 2 ∧ ∃ other, 8 ≤ other ∧ other < 16 ∧ isMasked pic other = false
  unmasked : ∀ line, line < 16 → lastRequest line done = some (.unmask line) → isMasked pic line = false
  kept : ∀ line, line < 16 → lastRequest line done = none → isMasked pic line = initial.getLsbD line

theorem write_mask_ports (pic : Pic) : lastOut pic1Data (picWriteMask pic).ports = some (masterByte pic.picMask) ∧
    lastOut pic2Data (picWriteMask pic).ports = some 0 := by
  constructor
  · rw [picWriteMask, last_out_other _ _ _ _ (by decide), last_out_here]
    congr 1
    apply BitVec.eq_of_getLsbD_eq
    intro i small
    have inside : (255#8).getLsbD i = true := by
      interval_cases i <;> rfl
    simp [masterByte, inside]
  · rw [picWriteMask, last_out_here]
    congr 1
    apply BitVec.eq_of_getLsbD_eq
    intro i small
    simp

theorem init_pic_mask (imr1 imr2 : BitVec 8) (ports : Ports) : (initPic imr1 imr2 ports).picMask = imr2 ++ imr1 := by
  apply BitVec.eq_of_getLsbD_eq
  intro line small
  have wide : line < 32 := by omega
  simp only [initPic, BitVec.getLsbD_setWidth, BitVec.getLsbD_or, BitVec.getLsbD_shiftLeft,
    BitVec.getLsbD_append, small, wide, decide_true, Bool.true_and]
  by_cases isMaster : line < 8
  · simp [isMaster]
  · have beyond : imr1.getLsbD line = false := BitVec.getLsbD_of_ge _ _ (by omega)
    simp [isMaster, beyond]
    omega

theorem one_shift_bit (irq line : Nat) (small : line < 32) : (1#32 <<< irq).getLsbD line = decide (line = irq) := by
  rw [← BitVec.twoPow_eq, BitVec.getLsbD_twoPow]
  by_cases same : line = irq
  · subst same
    simp [small]
  · simp [same, Ne.symm same]

theorem set_line_bit (mask : BitVec 16) (irq line : Nat) (small : line < 16) :
    ((mask.setWidth 32 ||| 1#32 <<< irq).setWidth 16).getLsbD line = (mask.getLsbD line || decide (line = irq)) := by
  have wide : line < 32 := by omega
  simp only [BitVec.getLsbD_setWidth, BitVec.getLsbD_or, one_shift_bit irq line wide, small, wide,
    decide_true, Bool.true_and]

theorem clear_line_bit (mask : BitVec 16) (irq line : Nat) (small : line < 16) :
    ((mask.setWidth 32 &&& ~~~(1#32 <<< irq)).setWidth 16).getLsbD line =
      (mask.getLsbD line && !decide (line = irq)) := by
  have wide : line < 32 := by omega
  simp only [BitVec.getLsbD_setWidth, BitVec.getLsbD_and, BitVec.getLsbD_not, one_shift_bit irq line wide, small,
    wide, decide_true, Bool.true_and]

theorem slave_zero_iff (mask : BitVec 16) :
    slaveByte mask = 0 ↔ ∀ line, 8 ≤ line → line < 16 → mask.getLsbD line = false := by
  constructor
  · intro zero line high small
    have bit := congrArg (fun byte => byte.getLsbD (line - 8)) zero
    simp only [slaveByte, BitVec.getLsbD_setWidth, BitVec.getLsbD_ushiftRight] at bit
    rw [show 8 + (line - 8) = line by omega] at bit
    simpa [show line - 8 < 8 by omega] using bit
  · intro clear
    apply BitVec.eq_of_getLsbD_eq
    intro i small
    simp [slaveByte, clear (8 + i) (by omega) (by omega)]

-- A clear slave line makes `(pic_mask & 0xFF00) != 0xFF00` true.
theorem slave_open (mask : BitVec 16) (line : Nat) (high : 8 ≤ line) (small : line < 16)
    (clear : mask.getLsbD line = false) :
    mask &&& 0xFF00 ≠ 0xFF00 := by
  intro full
  have bit := congrArg (fun word => word.getLsbD line) full
  have set : (0xFF00#16).getLsbD line = true := by interval_cases line <;> rfl
  simp only [BitVec.getLsbD_and, clear, Bool.false_and] at bit
  rw [show (0xFF00 : BitVec 16).getLsbD line = true from set] at bit
  cases bit

section Serve

variable (pic : Pic) (irq line : Nat) (small : line < 16)
include small

theorem mask_irq_bit : (picMaskIrq irq pic).picMask.getLsbD line = (pic.picMask.getLsbD line || decide (line = irq)) :=
  set_line_bit pic.picMask irq line small

theorem unmask_irq_bit (other : line ≠ 2) :
    (picUnmmaskRqp irq pic).picMask.getLsbD line = (pic.picMask.getLsbD line && !decide (line = irq)) := by
  simp only [picUnmmaskRqp, picWriteMask]
  split
  · rw [clear_line_bit _ 2 line small, clear_line_bit _ irq line small]
    simp [other]
  · exact clear_line_bit _ irq line small

theorem unmask_irq_le (set : (picUnmmaskRqp irq pic).picMask.getLsbD line = true) :
    pic.picMask.getLsbD line = true ∧ line ≠ irq := by
  simp only [picUnmmaskRqp, picWriteMask] at set
  split at set
  · rw [clear_line_bit _ 2 line small, clear_line_bit _ irq line small] at set
    simp only [Bool.and_eq_true, Bool.not_eq_true', decide_eq_false_iff_not] at set
    exact set.1
  · rw [clear_line_bit _ irq line small] at set
    simpa using set

theorem unmask_irq_cascade (high : 8 ≤ line) (clear : (picUnmmaskRqp irq pic).picMask.getLsbD line = false) :
    (picUnmmaskRqp irq pic).picMask.getLsbD 2 = false := by
  rw [unmask_irq_bit pic irq line small (by omega), ← clear_line_bit _ irq line small] at clear
  simp only [picUnmmaskRqp, picWriteMask]
  rw [if_pos (slave_open _ line high small clear), clear_line_bit _ 2 2 (by decide)]
  simp

end Serve

-- What the requests ask of a line.
def wanted (initial : BitVec 16) (done : List Request) (line : Nat) : Bool :=
  ((lastRequest line done).map Request.isMask).getD (initial.getLsbD line)

theorem last_request_snoc (line : Nat) (done : List Request) (r : Request) :
    lastRequest line (done ++ [r]) = if r.line = line then some r else lastRequest line done := by
  simp only [lastRequest, List.reverse_append, List.reverse_singleton, List.singleton_append, List.find?_cons]
  by_cases same : r.line = line
  · simp [same]
  · simp [same]

theorem last_request_mem (line : Nat) (done : List Request) (r : Request) (last : lastRequest line done = some r) :
    r ∈ done ∧ r.line = line := by
  have member := List.mem_of_find?_eq_some last
  have named := List.find?_some last
  exact ⟨List.mem_reverse.mp member, of_decide_eq_true named⟩

theorem last_request_none (line : Nat) (done : List Request) : lastRequest line done = none ↔
    ∀ r ∈ done, r.line ≠ line := by
  simp [lastRequest]

theorem run_snoc (done : List Request) (r : Request) (pic : Pic) :
    picRun (done ++ [r]) pic = serve (picRun done pic) r := by
  simp [picRun]

theorem serve_ports (pic : Pic) (r : Request) :
    lastOut pic1Data (serve pic r).ports = some (masterByte (serve pic r).picMask) ∧
    lastOut pic2Data (serve pic r).ports = some 0 := by
  cases r with
  | mask irq => exact write_mask_ports _
  | unmask irq => exact write_mask_ports _

theorem serve_masked (pic : Pic) (r : Request) (line : Nat) :
    isMasked (serve pic r) line = (decide (line < 8) && (serve pic r).picMask.getLsbD line) := by
  obtain ⟨master, slave⟩ := serve_ports pic r
  by_cases isMaster : line < 8
  · simp [isMasked, isMaster, master, masterByte]
  · simp [isMasked, isMaster, slave]

theorem run_bits (done : List Request) (pic : Pic) (line : Nat) (small : line < 16) :
    (line ≠ 2 → (picRun done pic).picMask.getLsbD line = wanted pic.picMask done line) ∧
      ((picRun done pic).picMask.getLsbD line = true → wanted pic.picMask done line = true) := by
  induction done using List.reverseRecOn with
  | nil => exact ⟨fun _ => rfl, id⟩
  | append_singleton done r ih =>
      rw [run_snoc]
      have latest :
          wanted pic.picMask (done ++ [r]) line = if r.line = line then r.isMask else wanted pic.picMask done line := by
        rw [wanted, last_request_snoc]
        by_cases same : r.line = line
        · simp [same]
        · simp [same, wanted]
      rw [latest]
      cases r with
      | mask irq =>
          have bit := mask_irq_bit (picRun done pic) irq line small
          by_cases same : irq = line
          · subst same
            simp [serve, Request.line, Request.isMask, bit]
          · have other : line ≠ irq := Ne.symm same
            simpa [serve, Request.line, bit, same, other] using ih
      | unmask irq =>
          constructor
          · intro notCascade
            have bit := unmask_irq_bit (picRun done pic) irq line small notCascade
            by_cases same : irq = line
            · subst same
              simp [serve, Request.line, Request.isMask, bit]
            · have other : line ≠ irq := Ne.symm same
              simpa [serve, Request.line, bit, same, other] using ih.1 notCascade
          · intro set
            obtain ⟨before, other⟩ := unmask_irq_le (picRun done pic) irq line small set
            have differ : irq ≠ line := Ne.symm other
            simpa [Request.line, differ] using ih.2 before

theorem masks_keep (done : List Request) (pic : Pic) (line : Nat) (small : line < 16)
    (set : pic.picMask.getLsbD line = true) (only : ∀ irq, .unmask irq ∉ done) :
    (picRun done pic).picMask.getLsbD line = true := by
  induction done using List.reverseRecOn with
  | nil => exact set
  | append_singleton done r ih =>
      have before := ih (fun irq member => only irq (List.mem_append_left _ member))
      cases r with
      | mask irq => rw [run_snoc, serve, mask_irq_bit _ irq line small, before, Bool.true_or]
      | unmask irq => exact absurd (List.mem_append_right _ List.mem_cons_self) (only irq)

-- No slave line is masked, neither by a request nor, but for the line the first request
-- unmasks, from the start.
def SlaveOpen (initial : BitVec 16) (requests : List Request) : Prop :=
  (∀ irq, 8 ≤ irq → .mask irq ∉ requests) ∧
    ∀ first ∈ requests.head?, ∀ line, 8 ≤ line → line < 16 → initial.getLsbD line = true → first = .unmask line

-- Line 2 is clear from the start or named by the time the first line is unmasked.
def CascadeNamed (initial : BitVec 16) (requests : List Request) : Prop :=
  ∀ before irq after, requests = before ++ .unmask irq :: after → initial.getLsbD 2 = true →
    ∃ r ∈ before ++ [.unmask irq], r.line = 2

section Follow

variable (pic : Pic) (requests : List Request)

theorem open_slave_clear (slaveOpen : SlaveOpen pic.picMask requests) (first : Request) (done rest : List Request)
    (split : requests = (first :: done) ++ rest) (line : Nat) (high : 8 ≤ line) (small : line < 16) :
    wanted pic.picMask (first :: done) line = false := by
  obtain ⟨noMask, noneFirst⟩ := slaveOpen
  cases last : lastRequest line (first :: done) with
  | none =>
      simp only [wanted, last, Option.map_none, Option.getD_none]
      by_contra set
      have isFirst := noneFirst first (by simp [split]) line high small (by simpa using set)
      have unnamed := (last_request_none line (first :: done)).mp last first List.mem_cons_self
      rw [isFirst] at unnamed
      exact unnamed rfl
  | some r =>
      obtain ⟨member, named⟩ := last_request_mem line _ r last
      cases r with
      | mask irq =>
          have bound : 8 ≤ irq := by
            rw [show irq = line from named]
            exact high
          exact absurd (split ▸ List.mem_append_left rest member) (noMask irq bound)
      | unmask irq => simp [wanted, last, Request.isMask]

theorem open_in_step (slaveOpen : SlaveOpen pic.picMask requests) (cascade : CascadeNamed pic.picMask requests)
    (done rest : List Request) (split : requests = done ++ rest) (called : done ≠ []) :
    InStep pic.picMask done (picRun done pic) := by
  have slaveClear (line : Nat) (high : 8 ≤ line) (small : line < 16) : wanted pic.picMask done line = false := by
    cases done with
    | nil => exact absurd rfl called
    | cons first done => exact open_slave_clear pic requests slaveOpen first done rest split line high small
  have bits (line : Nat) (small : line < 16) := run_bits done pic line small
  have zero : slaveByte (picRun done pic).picMask = 0 := by
    rw [slave_zero_iff]
    intro line high small
    rw [(bits line small).1 (by omega)]
    exact slaveClear line high small
  have ports : lastOut pic1Data (picRun done pic).ports = some (masterByte (picRun done pic).picMask) ∧
      lastOut pic2Data (picRun done pic).ports = some 0 ∧
      ∀ line, isMasked (picRun done pic) line = (decide (line < 8) && (picRun done pic).picMask.getLsbD line) := by
    rcases List.eq_nil_or_concat done with empty | ⟨before, r, isLast⟩
    · exact absurd empty called
    · rw [isLast, List.concat_eq_append, run_snoc]
      obtain ⟨master, slave⟩ := serve_ports (picRun before pic) r
      exact ⟨master, slave, serve_masked (picRun before pic) r⟩
  obtain ⟨master, slave, hardware⟩ := ports
  -- Bit 2 of a line nobody named: either it was clear, or nothing was unmasked since.
  have keptCascade (unnamed : lastRequest 2 done = none) :
      (picRun done pic).picMask.getLsbD 2 = pic.picMask.getLsbD 2 := by
    cases initial : pic.picMask.getLsbD 2 with
    | false =>
        by_contra set
        have asked := (bits 2 (by decide)).2 (by simpa using set)
        rw [wanted, unnamed, Option.map_none, Option.getD_none, initial] at asked
        cases asked
    | true =>
        apply masks_keep done pic 2 (by decide) initial
        intro irq member
        obtain ⟨before, after, parts⟩ := List.append_of_mem member
        obtain ⟨r, inside, named⟩ := cascade before irq (after ++ rest) (by rw [split, parts]; simp) initial
        refine (last_request_none 2 done).mp unnamed r ?_ named
        rw [parts]
        simp only [List.mem_append, List.mem_cons, List.not_mem_nil, or_false] at inside ⊢
        tauto
  refine ⟨master, by rw [slave, zero], ?_, ?_, ?_⟩
  · intro line small last
    by_cases isCascade : line = 2
    · exact .inr ⟨isCascade, 8, by decide, by decide, by simp [hardware]⟩
    · left
      have asked : wanted pic.picMask done line = true := by simp [wanted, last, Request.isMask]
      have isMaster : line < 8 := by
        by_contra high
        rw [slaveClear line (by omega) small] at asked
        cases asked
      rw [hardware, (bits line small).1 isCascade, asked]
      simp [isMaster]
  · intro line small last
    have asked : wanted pic.picMask done line = false := by simp [wanted, last, Request.isMask]
    rw [hardware, Bool.and_eq_false_iff]
    right
    by_contra set
    rw [(bits line small).2 (by simpa using set)] at asked
    cases asked
  · intro line small last
    have asked : wanted pic.picMask done line = pic.picMask.getLsbD line := by simp [wanted, last]
    rw [hardware]
    by_cases isMaster : line < 8
    · by_cases isCascade : line = 2
      · subst isCascade
        simpa using keptCascade last
      · rw [(bits line small).1 isCascade, asked]
        simp [isMaster]
    · rw [← asked, slaveClear line (by omega) small]
      simp [isMaster]

theorem in_step_open (lines : ∀ r ∈ requests, r.line < 16)
    (follows : ∀ done rest, requests = done ++ rest → done ≠ [] → InStep pic.picMask done (picRun done pic)) :
    SlaveOpen pic.picMask requests ∧ CascadeNamed pic.picMask requests := by
  -- After each call the slave port has 0, so the high byte of the shadow is 0 as well.
  have clear (before : List Request) (r : Request) (after : List Request)
      (split : requests = before ++ r :: after) (line : Nat)
      (high : 8 ≤ line) (small : line < 16) : (serve (picRun before pic) r).picMask.getLsbD line = false := by
    have inStep := (follows (before ++ [r]) after (by simp [split]) (by simp)).slave
    rw [run_snoc, (serve_ports _ r).2, Option.some.injEq] at inStep
    exact (slave_zero_iff _).mp inStep.symm line high small
  refine ⟨⟨?_, ?_⟩, ?_⟩
  · intro irq high member
    have small : irq < 16 := lines _ member
    obtain ⟨before, after, split⟩ := List.append_of_mem member
    have isClear := clear before _ after split irq high small
    rw [serve, mask_irq_bit _ irq irq small] at isClear
    simp at isClear
  · intro first isFirst line high small set
    obtain ⟨rest, split⟩ : ∃ rest, requests = first :: rest := List.head?_eq_some_iff.mp isFirst
    have isClear := clear [] first rest split line high small
    cases first with
    | mask irq =>
        rw [serve, mask_irq_bit _ irq line small] at isClear
        simp [picRun, set] at isClear
    | unmask irq =>
        rw [serve, unmask_irq_bit _ irq line small (by omega)] at isClear
        have same : line = irq := by simpa [picRun, set] using isClear
        rw [same]
  · intro before irq after split set
    by_contra unnamed
    have none : lastRequest 2 (before ++ [.unmask irq]) = none := by
      rw [last_request_none]
      intro r member named
      exact unnamed ⟨r, member, named⟩
    have kept := (follows (before ++ [.unmask irq]) after (by simp [split]) (by simp)).kept 2 (by decide) none
    rw [run_snoc, serve_masked, set] at kept
    have cleared : (serve (picRun before pic) (.unmask irq)).picMask.getLsbD 2 = false :=
      unmask_irq_cascade (picRun before pic) irq 8 (by decide) (by decide)
        (clear before _ after split 8 (by decide) (by decide))
    rw [cleared] at kept
    simp at kept

end Follow

-- The controllers follow the shadow through a whole run exactly when no slave line has to be held back.
theorem pic_follows_mask (imr1 imr2 : BitVec 8) (ports : Ports) (requests : List Request)
    (lines : ∀ r ∈ requests, r.line < 16) :
    (∀ done rest, requests = done ++ rest → done ≠ [] →
      InStep (imr2 ++ imr1) done (picRun done (initPic imr1 imr2 ports))) ↔
    SlaveOpen (imr2 ++ imr1) requests ∧ CascadeNamed (imr2 ++ imr1) requests := by
  rw [← init_pic_mask imr1 imr2 ports]
  constructor
  · exact in_step_open (initPic imr1 imr2 ports) requests lines
  · rintro ⟨slaveOpen, cascade⟩
    exact open_in_step (initPic imr1 imr2 ports) requests slaveOpen cascade

theorem pic_follows_mask_open :
    InStep (0x00#8 ++ 0xFB#8) [.unmask 1, .mask 0] (picRun [.unmask 1, .mask 0] (initPic 0xFB 0x00 [])) := by
  have lines : ∀ r ∈ [Request.unmask 1, Request.mask 0], r.line < 16 := by decide
  refine (pic_follows_mask 0xFB 0x00 [] [.unmask 1, .mask 0] lines).mpr ⟨⟨?_, ?_⟩, ?_⟩ _ [] rfl (by simp)
  · intro irq high member
    simp only [List.mem_cons, Request.mask.injEq, List.not_mem_nil, or_false, reduceCtorEq, false_or] at member
    omega
  · intro first _ line high small set
    interval_cases line <;> cases set
  · intro before irq after _ set
    cases set

-- Everything masked, as after a reset, and the timer line unmasked.
theorem pic_slave_dropped :
    (picRun [.unmask 0] (initPic 0xFF 0xFF [])).picMask = 0xFFFE#16 ∧
      lastOut pic2Data (picRun [.unmask 0] (initPic 0xFF 0xFF [])).ports = some 0 ∧
      ¬ InStep (0xFF#8 ++ 0xFF#8) [.unmask 0] (picRun [.unmask 0] (initPic 0xFF 0xFF [])) := by
  refine ⟨by decide, by decide, ?_⟩
  intro inStep
  exact absurd inStep.slave (by decide)

end X86OS.Drivers
