import X86OS.Process.Lifetime

set_option autoImplicit false

namespace X86OS.Process

open Mem Paging

variable {σ : Type}

structure NoTrace (S S' : System σ) : Prop where
  que : S'.kernel.sched.que = S.kernel.sched.que
  pages : ∀ block, block ∈ outstanding S'.log ↔ block ∈ outstanding S.log
  heap : S'.kernel.heap.memUsed = S.kernel.heap.memUsed

-- What is expected of `create_process` for an image that `load_elf` turns down.
def RejectsCleanly (A : PageAllocator σ) (sym : Symbols) (elf : Nat) (S : System σ) : Prop :=
  hasMagic S.kernel.heap.mem elf = false → ∀ S', Step A sym S (.createProcess S.kernel.heap.mem elf) S' → NoTrace S S'

theorem push_back_size (list : Sched.DLList) (node : Nat) (n : Sched.Nodes) :
    (Sched.listPushBack list node n).1.size = list.size + 1 ∧ (Sched.listPushBack list node n).1.tail = some node := by
  rw [Sched.listPushBack]
  split <;> exact ⟨rfl, rfl⟩

theorem create_process_queues (A : PageAllocator σ) (sym : Symbols) (elf t : Nat) (k k' : Kernel σ)
    (done : createProcess A sym elf k = .ok (t, k')) :
    k'.sched.que.size = k.sched.que.size + 1 ∧ k'.sched.que.tail = some t := by
  obtain ⟨new, -, rfl, started, -⟩ := create_process_spec A sym elf t k k' done
  rw [started]
  exact push_back_size _ _ _

-- `load_elf` says 0 for an image without the magic number. `create_process` takes that for the
-- address of the user stack and goes on.
theorem rejected_leaves_trace (A : PageAllocator σ) (sym : Symbols) (elf : Nat) (S S' : System σ)
    (rejected : hasMagic S.kernel.heap.mem elf = false)
    (create : Step A sym S (.createProcess S.kernel.heap.mem elf) S') :
    ¬ RejectsCleanly A sym elf S ∧ ∃ t, S'.processes = t :: S.processes ∧ S'.kernel.sched.que.tail = some t ∧
      S'.kernel.sched.que.size = S.kernel.sched.que.size + 1 := by
  obtain ⟨t, done, after⟩ := step_create_spec A sym S S' _ elf create
  obtain ⟨size, tail⟩ := create_process_queues A.logged sym elf t S.kernel S'.kernel done
  refine ⟨?_, t, by rw [after], tail, size⟩
  intro clean
  have same := (clean rejected S' create).que
  rw [same] at size
  omega

theorem rejected_touches (mem : Mem) (elf page : Nat) (rejected : hasMagic mem elf = false)
    (touches : Touches mem elf page) : page = 0 := by
  have none : segmentCount mem elf = 0 := if_neg (by simp [rejected])
  rcases touches with ⟨i, before, -⟩ | rfl
  · omega
  · rw [stackBase, none, lastEnd, Nat.zero_div]

theorem rejected_requests (mem : Mem) (elf : Nat) (rejected : hasMagic mem elf = false) : requests mem elf = 5 := by
  rw [requests, segmentCount, if_neg (by simp [rejected])]
  rfl

def blankElf : Nat := 0xC0002100

theorem blank_image (mem : Mem) (shown : ∀ x < 0xC0004000, mem x = sampleMem plainSample x) :
    hasMagic mem blankElf = false ∧ LowImage (· < 0xC0004000) mem blankElf := by
  have magic : hasMagic (sampleMem plainSample) blankElf = false := by decide +kernel
  have count : ePhnum (sampleMem plainSample) blankElf = 0 := by decide +kernel
  obtain ⟨magic', -, count'⟩ := elf_header_congr (sampleMem plainSample) mem blankElf
    (fun x _ high => shown x (by simp only [blankElf] at high; omega))
  have rejected : hasMagic mem blankElf = false := magic'.trans magic
  refine ⟨rejected, ?_, ?_⟩
  · rintro x (inHeader | ⟨i, before, -⟩)
    · simp only [blankElf] at inHeader
      omega
    · rw [count', count] at before
      exact absurd before (Nat.not_lt_zero i)
  · intro page touches
    rw [rejected_touches mem blankElf page rejected touches]
    decide

theorem sample_rejected :
    ∃ S₀ S₁, Booted pmm DeskLive deskSymbols (· < 0xC0004000) S₀ ∧ hasMagic S₀.kernel.heap.mem blankElf = false ∧
    Step pmm deskSymbols S₀ (.createProcess S₀.kernel.heap.mem blankElf) S₁ ∧
    ∃ dir, (dir, 0) ∉ outstanding S₀.log ∧ (dir, 0) ∈ outstanding S₁.log := by
  obtain ⟨S₀, live, foreign, pages, m, start, whole, -, -, -, serves, shown⟩ := sample_booted
  obtain ⟨rejected, image⟩ := blank_image S₀.kernel.heap.mem shown
  obtain ⟨new, h', built⟩ := image_builds (logged_lawful pmm DeskLive desk_lawful) whole blankElf image
    (serves_mono _ _ 8 _ (by rw [rejected_requests _ _ rejected]; decide) serves)
  have create : Step pmm deskSymbols S₀ (.createProcess S₀.kernel.heap.mem blankElf)
      ⟨startThread new h' S₀.kernel, S₀.ghost.add new.thread, S₀.threads, new.thread :: S₀.processes⟩ := by
    refine .createProcess _ _ _ _ _ blankElf new.thread ?_
    rw [createProcess, built]
  obtain ⟨_, _, _, _, _, dir, -, -, -, fresh, out⟩ :=
    created_directory desk_lawful whole blankElf new.thread _ create image rfl
  exact ⟨S₀, _, start, rejected, create, dir, fresh, out⟩

theorem rejected_leaves_trace_blank : ∃ S₀ S₁, Booted pmm DeskLive deskSymbols (· < 0xC0004000) S₀ ∧
    Step pmm deskSymbols S₀ (.createProcess S₀.kernel.heap.mem blankElf) S₁ ∧
      ¬ RejectsCleanly pmm deskSymbols blankElf S₀ := by
  obtain ⟨S₀, S₁, start, rejected, create, -⟩ := sample_rejected
  exact ⟨S₀, S₁, start, create, (rejected_leaves_trace pmm deskSymbols blankElf S₀ S₁ rejected create).1⟩

theorem rejected_thread_queued : ∃ S₀ S₁ t dir, Booted pmm DeskLive deskSymbols (· < 0xC0004000) S₀ ∧
    hasMagic S₀.kernel.heap.mem blankElf = false ∧
    Step pmm deskSymbols S₀ (.createProcess S₀.kernel.heap.mem blankElf) S₁ ∧
    S₁.kernel.sched.que.tail = some t ∧ S₁.kernel.sched.que.size = S₀.kernel.sched.que.size + 1 ∧
    (dir, 0) ∉ outstanding S₀.log ∧ (dir, 0) ∈ outstanding S₁.log ∧ ¬ NoTrace S₀ S₁ := by
  obtain ⟨S₀, S₁, start, rejected, create, dir, fresh, out⟩ := sample_rejected
  obtain ⟨t, done, -⟩ := step_create_spec pmm deskSymbols S₀ S₁ _ blankElf create
  obtain ⟨size, tail⟩ := create_process_queues pmm.logged deskSymbols blankElf t S₀.kernel S₁.kernel done
  exact ⟨S₀, S₁, t, dir, start, rejected, create, tail, size, fresh, out, fun same => fresh ((same.pages _).mp out)⟩

end X86OS.Process
