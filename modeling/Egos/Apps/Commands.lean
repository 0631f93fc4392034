import Egos.Apps.Directory
import Egos.Apps.Process

/-! Commands on their way from a typed line through the servers to a reply. -/

namespace Egos.Apps

open Egos.Earth Egos.Elf
open Egos.Grass (Content Kernel Fallible procAlloc procSetReady procFree idx2pid)

/-- Inodes from this one on belong to the file system that can be written to. -/
abbrev fsRootInode : Int := 100

/-- The blocks of the files of an image, by inode and offset. -/
abbrev Files := Nat → Nat → Treedisk.Block

/-- The machine while a command is handled. -/
structure Handling where
  kernel : Kernel
  memory : Memory
  -- The positions at which the arguments of a request are looked up, with their number.
  indexed : List (Int × Int)

/-- Programs that handle a command, where an error halts the machine. -/
abbrev CommandM := EStateM String Handling

/-- Runs a function of the kernel. -/
def onKernel {α : Type} (program : Kernel → Fallible (α × Kernel)) : CommandM α := fun state =>
  match program state.kernel with
  | .ok (value, kernel) => .ok value { state with kernel }
  | .error message => .error message state

/-- Runs a function of the memory while a command is handled. -/
def onPages {α : Type} (program : MemM α) : CommandM α := fun state =>
  match program state.memory with
  | .ok value memory => .ok value { state with memory }
  | .error message memory => .error message { state with memory }

/-- Looks an argument of a request up. -/
def index (request : Content) (position : Int) : CommandM Unit :=
  modify fun state => { state with indexed := (position, reqArgc request) :: state.indexed }

/-- Asks the directory server for a name in a directory. -/
def dirLookup (files : Files) (dirIno : Int) (name : List UInt8) : CommandM Int :=
  if dirIno < fsRootInode then
    match dirDoLookup (fun ino => (files ino.toNat 0).toList) dirIno name with
    -- The status of the reply is an error exactly for `-1`, which is then returned.
    | some ino => pure ino
    | none => throw "dir_do_lookup: the search leaves the block"
  else throw "rwfs is off; should not be here"

/-- The blocks that the file server reads from an inode. -/
def appRead (files : Files) (ino : Int) : CommandM (Nat → Treedisk.Block) :=
  if ino < fsRootInode then pure (files ino.toNat) else throw "rwfs is off; should not be here"

/-- Starts the program of an inode with the arguments of a request. -/
def launch (files : Files) (stale : UInt8) (request : Content) (appIno : Int) : CommandM Int := do
  let appPid ← onKernel procAlloc
  index request (reqArgc request - 1)
  let reader ← appRead files appIno
  onPages (elfLoad appPid reader (spawnArgc request stale) (some (reqArgv request)))
  onKernel fun kernel => do return ((), ← procSetReady kernel appPid)
  return 0

/-- Starts the program that a request names, and returns `-1` if there is none. -/
def appSpawn (files : Files) (stale : UInt8) (request : Content) : CommandM Int := do
  let binIno ← dirLookup files 0 (ascii "bin/")
  index request 0
  let appIno ← dirLookup files binIno (cString (reqArgv request))
  if appIno < 0 then return -1 else launch files stale request appIno

/-- The types of a reply to the shell. -/
inductive CmdStatus where
  | ok
  | error
  deriving DecidableEq, Repr

/-- Handles a request to spawn a process, and also says whether the shell waits for it. -/
def serveSpawn (files : Files) (stale : UInt8) (request : Content) :
    CommandM (CmdStatus × Bool) := do
  let status := if (← appSpawn files stale request) < 0 then CmdStatus.error else CmdStatus.ok
  index request (reqArgc request - 1)
  return (status, argvByte request stale (reqArgc request - 1) ≠ ampersand)

/-- Handles a request to kill all applications. -/
def serveKillall : CommandM Unit := do
  onPages ((freedPids (← get).kernel (-1)).forM softTlbFree)
  onKernel fun kernel => do return ((), ← procFree kernel (-1))

/-- What becomes of a command. -/
inductive Outcome where
  | killed
  | refused
  | replied (status : CmdStatus)
  deriving DecidableEq, Repr

/-- Handles a command that the shell got from a line. -/
def shellCommand (files : Files) (stale : UInt8) (content : Content) (nextcmd : List UInt8) :
    CommandM Outcome := do
  if nextcmd = ascii "killall" then
    serveKillall
    return .killed
  match (parseRequest nextcmd).2 with
  | none => return .refused
  | some argc =>
    let request := spawnRequest content nextcmd argc
    let (status, _) ← serveSpawn files stale request
    -- The shell waits for a program that runs in the foreground.
    if status = .ok then index request (reqArgc request - 1)
    return .replied status

/-- A command that halts nothing, is answered, and has only its own arguments and only rows of the
table of pages looked up: what lies behind the table may well halt the machine. -/
def Handled (files : Files) (stale : UInt8) (content : Content) (nextcmd : List UInt8)
    (kernel : Kernel) (memory : Memory) : Prop :=
  Ends (shellCommand files stale content nextcmd)
    (fun outcome after => (outcome = .refused ∨ ∃ status, outcome = .replied status) ∧
      (∀ lookup ∈ after.indexed, 0 ≤ lookup.1 ∧ lookup.1 < lookup.2) ∧
      ∀ row ∈ after.memory.rows, row < Grass.maxNprocess)
    (fun _ _ => False) ⟨kernel, memory, []⟩

/-- The entries of the directory of programs, as the image is made. -/
def binEntries : List Entry :=
  [⟨ascii "./", 3, ascii "6", 1⟩, ⟨ascii "../", 3, ascii "0", 1⟩, ⟨ascii "echo", 3, ascii "7", 1⟩,
    ⟨ascii "cat", 3, ascii "8", 1⟩, ⟨ascii "ls", 3, ascii "9", 1⟩, ⟨ascii "cd", 2, ascii "10", 1⟩,
    ⟨ascii "pwd", 2, ascii "11", 1⟩, ⟨ascii "clock", 2, ascii "12", 1⟩,
    ⟨ascii "crash1", 2, ascii "13", 1⟩, ⟨ascii "crash2", 2, ascii "14", 1⟩,
    ⟨ascii "ult", 2, ascii "15", 1⟩, ⟨ascii "memloop", 1, ascii "16", 1⟩,
    ⟨ascii "helloworld", 1, ascii "17", 1⟩, ⟨ascii "loop", 1, ascii "18", 1⟩,
    ⟨ascii "crash3", 1, ascii "19", 1⟩, ⟨ascii "append", 1, ascii "20", 1⟩,
    ⟨ascii "fstest", 1, ascii "21", 1⟩, ⟨ascii "macb_test", 1, ascii "22", 1⟩,
    ⟨ascii "http", 1, ascii "23", 0⟩]

example : directoryText binEntries =
    ascii ("./   6 ../   0 echo   7 cat   8 ls   9 cd  10 pwd  11 clock  12 crash1  13 " ++
      "crash2  14 ult  15 memloop 16 helloworld 17 loop 18 crash3 19 append 20 fstest 21 " ++
      "macb_test 22 http 23") := by decide +kernel

/-- The image that the file system is made from. -/
structure Image (files : Files) : Prop where
  root : (files 0 0).toList = directoryBlock (directoryText rootEntries)
  bin : (files 6 0).toList = directoryBlock (directoryText binEntries)
  programs : ∀ entry ∈ binEntries.drop 2, Program (files (decimal entry.number))

/-- The words in the directory of programs that stand for no program. -/
def strayWords : List (List UInt8) :=
  ["./", "../", "0", "6", "7", "8", "9", "10", "11", "12", "13", "14", "15", "16", "17", "18",
    "19", "20", "21", "22"].map ascii

/-- A line that the terminal returns, as it lies in the shell's buffer. -/
structure Line where
  bytes : List UInt8
  short : bytes.length ≤ 255

section Lookups

variable {files : Files} {word : List UInt8}

/-- A lookup reads its own directory only. -/
theorem dirDoLookup_congr {fileRead : Int → List UInt8} {dirIno : Int} {block : List UInt8}
    (stored : fileRead dirIno = block) (name : List UInt8) :
    dirDoLookup fileRead dirIno name = dirDoLookup (fun _ => block) dirIno name := by
  rw [dirDoLookup, dirDoLookup, stored]

/-- The directory of programs is formatted. -/
theorem binEntries_formatted : Formatted binEntries := by
  repeat' constructor
  all_goals decide +kernel

/-- The directory of programs has its own inode. -/
theorem lookup_root : dirDoLookup (fun _ => directoryBlock (directoryText rootEntries)) 0
    (ascii "bin/") = some 6 := by
  decide +kernel

/-- The stray words of the directory of programs, and an empty name, lead to directories. -/
theorem lookup_stray (stray : word = [] ∨ word ∈ strayWords) :
    ∃ ino ∈ [(0 : Int), 6],
      dirDoLookup (fun _ => directoryBlock (directoryText binEntries)) 6 word = some ino := by
  have all : ∀ other ∈ [] :: strayWords, ∃ ino ∈ [(0 : Int), 6],
      dirDoLookup (fun _ => directoryBlock (directoryText binEntries)) 6 other = some ino := by
    decide +kernel
  exact all word (List.mem_cons.mpr stray)

/-- The name of a program leads to its inode. -/
theorem lookup_program {entry : Entry} (listed : entry ∈ binEntries.drop 2) :
    dirDoLookup (fun _ => directoryBlock (directoryText binEntries)) 6 entry.name =
      some (decimal entry.number : Int) := by
  have all : ∀ other ∈ binEntries.drop 2,
      dirDoLookup (fun _ => directoryBlock (directoryText binEntries)) 6 other.name =
        some (decimal other.number : Int) := by
    decide +kernel
  exact all entry listed

/-- Any other word leads nowhere. -/
theorem lookup_missing (present : word ≠ []) (solid : space ∉ word) (clean : 0 ∉ word)
    (short : word.length < cmdArgLen) (known : word ∉ strayWords)
    (foreign : ∀ entry ∈ binEntries.drop 2, word ≠ entry.name) :
    dirDoLookup (fun _ => directoryBlock (directoryText binEntries)) 6 word = some (-1) := by
  have fits : word.length ≤ (directoryText binEntries).length := by
    have length : cmdArgLen ≤ (directoryText binEntries).length := by decide +kernel
    omega
  rcases @dirDoLookup_inside (fun _ => directoryBlock (directoryText binEntries)) 6 word _ rfl
    (by decide +kernel) (directoryText_proper binEntries_formatted) clean fits with
    ⟨before, after, -, stands, -⟩ | ⟨-, run⟩
  · -- A word that stands in the text is the name of a program or a stray word.
    exfalso
    rcases stands_directory binEntries_formatted present solid stands with
      ⟨entry, member, -, name, -⟩ | ⟨entry, member, number, spaced⟩
    · have split : ∀ entry ∈ binEntries, entry ∈ binEntries.drop 2 ∨ entry.name ∈ strayWords := by
        decide +kernel
      rcases split entry member with program | stray
      · exact foreign entry program name
      · exact known (name ▸ stray)
    · have numbers : ∀ entry ∈ binEntries, 0 < entry.tail → entry.number ∈ strayWords := by
        decide +kernel
      exact known (number ▸ numbers entry member spaced)
  · exact run

end Lookups

section Serving

variable {files : Files} {stale : UInt8} {request : Content} {state : Handling}
variable {α : Type} {returns : α → Handling → Prop} {stops : String → Handling → Prop}

/-- A function of the memory ends as it does by itself. -/
theorem ends_onPages (program : MemM α) :
    Ends (onPages program) returns stops state ↔
      Ends program (fun value memory => returns value { state with memory })
        (fun message memory => stops message { state with memory }) state.memory := by
  unfold Ends onPages
  cases program state.memory <;> rfl

/-- A function of the kernel that returns does so from a command as well. -/
theorem ends_onKernel {program : Kernel → Fallible (α × Kernel)} {value : α} {kernel : Kernel}
    (run : program state.kernel = .ok (value, kernel)) :
    Ends (onKernel program) returns stops state ↔ returns value { state with kernel } := by
  unfold Ends onKernel
  rw [run]

/-- Looking up the name of a request in the directory of programs decides what happens. -/
theorem ends_appSpawn (image : Image files) {ino : Int} {returns : Int → Handling → Prop}
    (found : dirDoLookup (fun _ => directoryBlock (directoryText binEntries)) 6
      (cString (reqArgv request)) = some ino) :
    Ends (appSpawn files stale request) returns stops state ↔
      Ends (if ino < 0 then pure (-1) else launch files stale request ino) returns stops
        { state with indexed := (0, reqArgc request) :: state.indexed } := by
  have root : dirLookup files 0 (ascii "bin/") = pure 6 := by
    rw [dirLookup, if_pos (by decide), dirDoLookup_congr image.root, lookup_root]
  have bin : dirLookup files 6 (cString (reqArgv request)) = pure ino := by
    rw [dirLookup, if_pos (by decide), dirDoLookup_congr image.bin, found]
  unfold appSpawn
  rw [root, ends_bind, ends_pure, ends_bind, index, ends_modify, bin, ends_bind, ends_pure]

/-- Starting a program succeeds while a slot is free, and uses the row of the slot's pid. -/
theorem ends_launch {machine : Machine} {top : Nat} (sound : machine.Sound top)
    (idle : machine.job = .idle) {free : Grass.Slot}
    (unused : (machine.kernel.procSet free).status = .unused) {ino : Int} (low : ino < fsRootInode)
    (program : Program (files ino.toNat)) (indexed : List (Int × Int)) :
    Ends (launch files stale request ino) (fun result after => result = 0 ∧
      after.indexed = (reqArgc request - 1, reqArgc request) :: indexed ∧
      ∃ idx ≤ free, (machine.kernel.procSet idx).status = .unused ∧
        (idx2pid idx).toNat ∈ after.memory.rows ∧
        ∀ row ∈ after.memory.rows, row = (idx2pid idx).toNat ∨ row ∈ machine.memory.rows)
      (fun _ _ => False) ⟨machine.kernel, machine.memory, indexed⟩ := by
  obtain ⟨idx, first, fresh, allocated⟩ := Machine.procAlloc_eq unused
  have accounted := sound.accounted
  rw [idle, Job.hand] at accounted
  have spare : ∀ i, ¬ machine.maps (idx2pid idx).toNat i := by
    intro i
    rw [Machine.maps_idx2pid]
    simp [Machine.mapped, fresh]
  unfold launch
  rw [ends_bind, ends_onKernel allocated, ends_bind, index, ends_modify, ends_bind, appRead,
    if_pos low, ends_pure, ends_bind, ends_onPages]
  refine (ends_elfLoad accounted (Machine.idx2pid_known idx) spare program _ _).imp
    (fun _ memory loaded => ?_) (fun _ _ => id)
  -- The slot carries its pid, so that the process can be made ready.
  have carried : ((machine.kernel.allocated idx).procSet idx).pid = idx2pid idx := by
    simp [Kernel.allocated]
  have ready : procSetReady (machine.kernel.allocated idx) (idx2pid idx) =
      .ok ((machine.kernel.allocated idx).setStatus idx .ready) :=
    Grass.procSetStatus_eq_ok.mpr ⟨idx, rfl, carried, rfl⟩
  rw [ends_bind, ends_onKernel (by simp only [ready]; rfl), ends_pure]
  exact ⟨rfl, rfl, idx, first, fresh, loaded.looked, loaded.rows⟩

/-- Starting a file that is no executable halts the machine. -/
theorem ends_launch_stray {free : Grass.Slot}
    (unused : (state.kernel.procSet free).status = .unused) {ino : Int} (low : ino < fsRootInode)
    (garbled : ePhnum (files ino.toNat 0) ≠ 1) :
    Ends (launch files stale request ino) (fun _ _ => False) (fun _ _ => True) state := by
  obtain ⟨idx, -, -, allocated⟩ := Machine.procAlloc_eq unused
  unfold launch
  rw [ends_bind, ends_onKernel allocated, ends_bind, index, ends_modify, ends_bind, appRead,
    if_pos low, ends_pure, ends_bind, ends_onPages, elfLoad, ends_bind, ends_assert,
    if_neg garbled]
  trivial

/-- The directories that stray words lead to are no executables. -/
theorem Image.garbled (image : Image files) {ino : Int} (listed : ino ∈ [(0 : Int), 6]) :
    ePhnum (files ino.toNat 0) ≠ 1 := by
  have byte : ∀ {block : Treedisk.Block} {text : List UInt8}, block.toList = directoryBlock text →
      ∀ k, block.byte k = ((directoryBlock text)[k]?.getD 0).toNat := by
    intro block text stored k
    rw [← stored, Vector.getElem?_toList]
    rfl
  simp only [List.mem_cons, List.not_mem_nil, or_false] at listed
  rcases listed with rfl | rfl
  · change half (files 0 0) 44 ≠ 1
    rw [half, byte image.root, byte image.root]
    decide +kernel
  · change half (files 6 0) 44 ≠ 1
    rw [half, byte image.bin, byte image.bin]
    decide +kernel

end Serving

section Commands

variable {files : Files} {stale : UInt8} {content : Content} {cmd : List UInt8} {argc : Nat}

/-- The name in the request for a command is its first token, or empty if it has none. -/
theorem cString_request (clean : 0 ∉ cmd) (accepted : (parseRequest cmd).2 = some argc) :
    cString (reqArgv (spawnRequest content cmd argc)) = (tokens space cmd).head?.getD [] := by
  -- The cells of the first slot are those of the first token, with zeros behind.
  have parsed := parseRequest_parsed accepted
  have proper : 0 ∉ (tokens space cmd).head?.getD [] := by
    cases split : tokens space cmd with
    | nil => simp
    | cons word others =>
      intro member
      exact clean (mem_of_mem_tokens (by rw [split]; exact List.mem_cons_self) member)
  have short : ((tokens space cmd).head?.getD []).length < cmdArgLen := by
    cases split : tokens space cmd with
    | nil => decide
    | cons word others => exact parsed.shorter word (by rw [split]; exact List.mem_cons_self)
  apply cString_eq proper
  intro k inside
  have cell : (reqArgv (spawnRequest content cmd argc))[cmdArgLen * 0 + k]? =
      some ((parseRequest cmd).1.cells 0 k) :=
    reqArgv_load procSpawn (by decide) (Nat.lt_of_le_of_lt inside short)
  rw [Nat.mul_zero, Nat.zero_add] at cell
  rw [cell, parsed.cells, List.head?_eq_getElem?]

/-- An accepted command ends as the process server's attempt to start a program does. -/
theorem ends_shellCommand (other : cmd ≠ ascii "killall")
    (accepted : (parseRequest cmd).2 = some argc) {state : Handling}
    {returns : Outcome → Handling → Prop} {stops : String → Handling → Prop} :
    Ends (shellCommand files stale content cmd) returns stops state ↔
      Ends (appSpawn files stale (spawnRequest content cmd argc)) (fun result after =>
        let lookup := (reqArgc (spawnRequest content cmd argc) - 1,
          reqArgc (spawnRequest content cmd argc))
        if result < 0 then
          returns (.replied .error) { after with indexed := lookup :: after.indexed }
        else returns (.replied .ok) { after with indexed := lookup :: lookup :: after.indexed })
        stops state := by
  -- The two lookups of `argv[argc - 1]` only note their index; all else is the attempt itself.
  unfold shellCommand serveSpawn index
  simp only [if_neg other, accepted, ends_bind, ends_modify, ends_pure]
  apply ends_congr
  intro result after
  by_cases negative : result < 0
  · simp only [if_pos negative, reduceCtorEq, if_false, ends_pure]
  · simp only [if_neg negative, if_true, ends_bind, ends_modify, ends_pure]

/-- A command whose first token names a program is answered, on the row of the slot's pid. -/
theorem ends_program {machine : Machine} {top : Nat} (sound : machine.Sound top)
    (idle : machine.job = .idle) {free : Grass.Slot}
    (unused : (machine.kernel.procSet free).status = .unused) (image : Image files)
    (clean : 0 ∉ cmd) (other : cmd ≠ ascii "killall") (accepted : (parseRequest cmd).2 = some argc)
    {entry : Entry} (member : entry ∈ binEntries.drop 2)
    (first : (tokens space cmd).head? = some entry.name) :
    Ends (shellCommand files stale content cmd)
      (fun outcome after => outcome = .replied .ok ∧
        (∀ lookup ∈ after.indexed, 0 ≤ lookup.1 ∧ lookup.1 < lookup.2) ∧
        ∃ idx ≤ free, (machine.kernel.procSet idx).status = .unused ∧
          (idx2pid idx).toNat ∈ after.memory.rows ∧
          ∀ row ∈ after.memory.rows, row = (idx2pid idx).toNat ∨ row ∈ machine.memory.rows)
      (fun _ _ => False) ⟨machine.kernel, machine.memory, []⟩ := by
  -- The lookup finds the inode of the program, and the launch takes the first free slot.
  have parsed := parseRequest_parsed accepted
  have name : cString (reqArgv (spawnRequest content cmd argc)) = entry.name := by
    rw [cString_request clean accepted, first]
    rfl
  have count : reqArgc (spawnRequest content cmd argc) = argc :=
    reqArgc_load procSpawn (by rw [parsed.count]; exact parsed.few)
  have some_ : (1 : Int) ≤ argc := by
    have positive := List.length_pos_of_mem (List.mem_of_mem_head? first)
    have total := parsed.count
    omega
  have low : ((decimal entry.number : Nat) : Int) < fsRootInode := by
    have all : ∀ entry ∈ binEntries.drop 2, ((decimal entry.number : Nat) : Int) < fsRootInode := by
      decide +kernel
    exact all entry member
  rw [ends_shellCommand other accepted,
    ends_appSpawn image (by rw [name]; exact lookup_program member), if_neg (by omega)]
  refine (ends_launch sound idle unused low (image.programs entry member) _).imp
    (fun result after started => ?_) (fun _ _ => id)
  obtain ⟨rfl, indexed, row⟩ := started
  rw [if_neg (by decide)]
  refine ⟨rfl, ?_, row⟩
  simp only [indexed, count, List.mem_cons, List.not_mem_nil, or_false]
  rintro lookup (rfl | rfl | rfl | rfl) <;> simp only <;> omega

/-- A command with a first token that is neither a program nor a stray word is answered. -/
theorem handled_of_missing {kernel : Kernel} {memory : Memory} (image : Image files)
    (rows : ∀ row ∈ memory.rows, row < Grass.maxNprocess)
    (clean : 0 ∉ cmd) (other : cmd ≠ ascii "killall") (accepted : (parseRequest cmd).2 = some argc)
    {word : List UInt8} (first : (tokens space cmd).head? = some word)
    (known : word ∉ strayWords) (foreign : ∀ entry ∈ binEntries.drop 2, word ≠ entry.name) :
    Handled files stale content cmd kernel memory := by
  -- The lookup finds nothing, so that no process is allocated.
  have parsed := parseRequest_parsed accepted
  have listed : word ∈ tokens space cmd := List.mem_of_mem_head? first
  have name : cString (reqArgv (spawnRequest content cmd argc)) = word := by
    rw [cString_request clean accepted, first]
    rfl
  have count : reqArgc (spawnRequest content cmd argc) = argc :=
    reqArgc_load procSpawn (by rw [parsed.count]; exact parsed.few)
  have some_ : (1 : Int) ≤ argc := by
    have positive := List.length_pos_of_mem listed
    have total := parsed.count
    omega
  have missing := lookup_missing (ne_nil_of_mem_tokens listed) (not_mem_of_mem_tokens listed)
    (fun member => clean (mem_of_mem_tokens listed member)) (parsed.shorter word listed) known
    foreign
  rw [Handled, ends_shellCommand other accepted,
    ends_appSpawn image (by rw [name]; exact missing), if_pos (by decide), ends_pure,
    if_pos (by decide)]
  refine ⟨Or.inr ⟨_, rfl⟩, ?_, rows⟩
  simp only [count, List.mem_cons, List.not_mem_nil, or_false]
  rintro lookup (rfl | rfl) <;> simp only <;> omega

/-- An accepted command without tokens, or with a stray word for its first one, halts the machine. -/
theorem not_handled_of_stray {kernel : Kernel} {memory : Memory} {free : Grass.Slot}
    (unused : (kernel.procSet free).status = .unused) (image : Image files)
    (clean : 0 ∉ cmd) (other : cmd ≠ ascii "killall") (accepted : (parseRequest cmd).2 = some argc)
    (stray : ∀ word, (tokens space cmd).head? = some word → word ∈ strayWords) :
    ¬ Handled files stale content cmd kernel memory := by
  -- The lookup leads to a directory, which is launched like a program.
  have name := @cString_request content cmd argc clean accepted
  have led : (tokens space cmd).head?.getD [] = [] ∨
      (tokens space cmd).head?.getD [] ∈ strayWords := by
    cases first : (tokens space cmd).head? with
    | none => exact Or.inl rfl
    | some word => exact Or.inr (stray word first)
  obtain ⟨ino, directory, found⟩ := lookup_stray led
  have inside : 0 ≤ ino ∧ ino < fsRootInode := by
    simp only [List.mem_cons, List.not_mem_nil, or_false] at directory
    simp only [fsRootInode]
    omega
  rw [Handled, ends_shellCommand other accepted, ends_appSpawn image (by rw [name]; exact found),
    if_neg (by omega)]
  exact (ends_launch_stray unused inside.2 (image.garbled directory)).absurd

end Commands

/-- A command from a typed line is handled exactly when it is refused for its size, or has a first
token that is not one of the words in the directory of programs that stand for no program, and if
that token names a program, a slot is free whose pid has a row in every table. -/
theorem command_handled_iff {ram : Nat → Page} {machine : Machine} {history : List Grass.Event}
    (reached : Machine.Reaches (fun m call => m.Permitted call ∧ m.Roomy call) ram machine history)
    (idle : machine.job = .idle) {free : Grass.Slot}
    (unused : (machine.kernel.procSet free).status = .unused) {files : Files}
    (image : Image files) (line : Line) {cmd : List UInt8} {batch : Batch}
    (extracted : Extracted (cString line.bytes) cmd batch) (other : cmd ≠ ascii "killall")
    (stale : UInt8) (content : Content) :
    Handled files stale content cmd machine.kernel machine.memory ↔
      Oversized cmd cmdNargs ∨
        ∃ word, (tokens space cmd).head? = some word ∧ word ∉ strayWords ∧
          (machine.Roomy .procAlloc ∨ ∀ entry ∈ binEntries.drop 2, word ≠ entry.name) := by
  have proper : 0 ∉ cString line.bytes := by
    intro member
    have nonzero := List.all_eq_true.mp List.all_takeWhile 0 member
    simp at nonzero
  have clean := (extracted.clean proper).1
  have sound := Machine.reaches_sound reached
  have inside : ∀ row ∈ machine.memory.rows, row < Grass.maxNprocess :=
    fun row member => Nat.lt_succ_of_le (sound.rows row member)
  rw [← parseRequest_eq_none]
  cases accepted : (parseRequest cmd).2 with
  | none =>
    simp only [true_or, iff_true]
    simpa [Handled, shellCommand, other, accepted] using inside
  | some argc =>
    simp only [reduceCtorEq, false_or]
    constructor
    · intro handled
      by_contra stray
      push Not at stray
      by_cases named : ∃ word, (tokens space cmd).head? = some word ∧ word ∉ strayWords
      · -- The program would get the row behind the table.
        obtain ⟨word, first, known⟩ := named
        obtain ⟨full, entry, member, rfl⟩ := stray word first known
        obtain ⟨_, _, run, -, -, idx, -, fresh, used, -⟩ :=
          (ends_program sound idle unused image clean other accepted member first).returned
        obtain ⟨-, -, rows⟩ := Ends.ok handled run
        apply full
        refine ⟨idx, ?_, fresh⟩
        have below := rows _ used
        omega
      · apply not_handled_of_stray unused image clean other accepted _ handled
        intro word first
        by_contra known
        exact named ⟨word, first, known⟩
    · rintro ⟨word, first, known, room⟩
      by_cases program : ∃ entry ∈ binEntries.drop 2, word = entry.name
      · obtain ⟨entry, member, rfl⟩ := program
        rcases room with ⟨slot, below, spare⟩ | foreign
        · refine (ends_program sound idle spare image clean other accepted member first).imp
            (fun outcome after done => ?_) (fun _ _ => id)
          obtain ⟨rfl, lookups, idx, lower, -, -, rows⟩ := done
          refine ⟨Or.inr ⟨_, rfl⟩, lookups, fun row member => ?_⟩
          -- The slot that is taken comes no later than the one that is known to be free.
          have before : idx2pid idx ≤ idx2pid slot := by
            simp only [idx2pid]
            have first : idx.val ≤ slot.val := lower
            omega
          rcases rows row member with rfl | earlier
          · have bounds := Grass.idx2pid_bounds idx
            omega
          · exact inside row earlier
        · exact absurd rfl (foreign entry member)
      · push Not at program
        exact handled_of_missing image inside clean other accepted first known program

/-- The padding fills the block of a directory. -/
theorem size_directoryBlock {text : List UInt8} (short : text.length ≤ Treedisk.blockSize) :
    (directoryBlock text).toArray.size = Treedisk.blockSize := by
  rw [List.size_toArray, directoryBlock, List.length_append, List.length_replicate]
  omega

/-- The block of a directory. -/
def textBlock (text : List UInt8) (short : text.length ≤ Treedisk.blockSize) : Treedisk.Block :=
  ⟨(directoryBlock text).toArray, size_directoryBlock short⟩

/-- An image with a small executable for every program. -/
def smallFiles : Files
  | 0 => fun _ => textBlock (directoryText rootEntries) (by decide +kernel)
  | 6 => fun _ => textBlock (directoryText binEntries) (by decide +kernel)
  | _ => smallProgram

/-- The small files make an image. -/
theorem smallFiles_image : Image smallFiles := by
  refine ⟨rfl, rfl, ?_⟩
  intro entry member
  have program : ∀ entry ∈ binEntries.drop 2, decimal entry.number ≠ 0 ∧
      decimal entry.number ≠ 6 := by
    decide +kernel
  obtain ⟨first, second⟩ := program entry member
  have same : smallFiles (decimal entry.number) = smallProgram := by
    unfold smallFiles
    split
    · exact absurd ‹_› first
    · exact absurd ‹_› second
    · rfl
  rw [same]
  exact smallProgram_program

/-- After booting the process server is idle and a slot is free. -/
theorem booted : ∃ machine history,
    Machine.Reaches (fun m call => m.Permitted call ∧ m.Roomy call) (fun _ => Buffer.zero _) machine
        history ∧
      machine.job = .idle ∧ (machine.kernel.procSet 5).status = .unused := by
  have ran : (follow (fun m call => Machine.Permitted m call ∧ Machine.Roomy m call) Machine.step
      (.initial fun _ => Buffer.zero _) Machine.bootCalls).map (fun reached =>
        (reached.1.job, (reached.1.kernel.procSet 5).status)) = some (.idle, .unused) := by
    decide +kernel
  obtain ⟨⟨machine, history⟩, followed, found⟩ := Option.map_eq_some_iff.mp ran
  rw [Prod.mk.injEq] at found
  exact ⟨machine, history, run_of_follow .start followed, found.1, found.2⟩

/-- A line that is not in parentheses is a command. -/
theorem extracted_line {buf : List UInt8} (plain : buf.head? ≠ some 40) :
    ∃ batch, Extracted buf buf batch := by
  have started : startBatch buf ⟨fun _ => [], -1, -1⟩ =
      (⟨Function.update (fun _ => []) 0 buf, 0, 0⟩, true) := if_pos (Or.inl plain)
  have ends : Ends (parseBatchCmds buf) (fun answer _ => answer = some buf) (fun _ _ => False)
      ⟨fun _ => [], -1, -1⟩ := by
    unfold parseBatchCmds nextCmd
    simp [started, -bind_pure_comp]
  obtain ⟨_, batch, call, rfl⟩ := ends.returned
  exact ⟨batch, .first rfl call⟩

/-- The command to print a word is handled after booting. -/
theorem command_handled_echo : ∃ machine history batch,
    Machine.Reaches (fun m call => m.Permitted call ∧ m.Roomy call) (fun _ => Buffer.zero _) machine
        history ∧
      Extracted (cString (ascii "echo hi")) (ascii "echo hi") batch ∧
      Handled smallFiles 0 (Buffer.zero _) (ascii "echo hi") machine.kernel machine.memory := by
  obtain ⟨machine, history, reached, idle, unused⟩ := booted
  obtain ⟨batch, extracted⟩ := @extracted_line (ascii "echo hi") (by decide)
  have whole : cString (ascii "echo hi") = ascii "echo hi" := by decide
  have line : (⟨ascii "echo hi", by decide⟩ : Line).bytes = ascii "echo hi" := rfl
  refine ⟨machine, history, batch, reached, by rw [whole]; exact extracted, ?_⟩
  rw [command_handled_iff reached idle unused smallFiles_image ⟨ascii "echo hi", by decide⟩
    (by rw [line, whole]; exact extracted) (by decide) 0 (Buffer.zero _)]
  exact Or.inr ⟨ascii "echo", by decide, by decide, Or.inl ⟨5, by decide, unused⟩⟩

/-- A line of one space halts the machine. -/
theorem command_not_handled_blank : ∃ machine history batch,
    Machine.Reaches (fun m call => m.Permitted call ∧ m.Roomy call) (fun _ => Buffer.zero _) machine
        history ∧
      machine.job = .idle ∧ (machine.kernel.procSet 5).status = .unused ∧ Image smallFiles ∧
      Extracted (cString (ascii " ")) (ascii " ") batch ∧ ascii " " ≠ ascii "killall" ∧
      (parseRequest (ascii " ")).2 = some 0 ∧
      ¬ Handled smallFiles 0 (Buffer.zero _) (ascii " ") machine.kernel machine.memory := by
  -- A blank line has no first token, so that none of the words can be it.
  obtain ⟨machine, history, reached, idle, unused⟩ := booted
  obtain ⟨batch, extracted⟩ := @extracted_line (ascii " ") (by decide)
  have whole : cString (ascii " ") = ascii " " := by decide
  have accepted : (parseRequest (ascii " ")).2 = some 0 := by decide
  refine ⟨machine, history, batch, reached, idle, unused, smallFiles_image,
    by rw [whole]; exact extracted, by decide, accepted, ?_⟩
  apply not_handled_of_stray unused smallFiles_image (by decide) (by decide) accepted
  intro word first
  have none : (tokens space (ascii " ")).head? = none := by decide
  rw [none] at first
  cases first

end Egos.Apps
