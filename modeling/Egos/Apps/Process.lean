import Egos.Apps.Shell
import Egos.Earth.Tables
import Egos.Elf.Pages

/-! The process server: what becomes of a command that the shell has accepted. -/

namespace Egos.Apps

open Egos.Earth Egos.Elf
open Egos.Grass (Content)
open Egos.Treedisk (signed)

/-- The four bytes of a number, least significant byte first. -/
def littleEndian (value : Nat) : List UInt8 :=
  (List.range 4).map fun k => UInt8.ofNat (value / 256 ^ k)

/-- The type of a request to spawn a process. -/
abbrev procSpawn : Nat := 0

/-- The bytes of a request to the process server. -/
def requestBytes (type argc : Nat) (args : Args) : List UInt8 :=
  littleEndian type ++ littleEndian argc ++
    List.ofFn fun k : Fin (cmdNargs * cmdArgLen) => args.cells (k / cmdArgLen) (k % cmdArgLen)

/-- The number of arguments in a request, which is a signed number. -/
def reqArgc (request : Content) : Int := signed (request.word 1)

/-- The argument slots of a request. -/
def reqArgv (request : Content) : List UInt8 :=
  (request.toList.drop 8).take (cmdNargs * cmdArgLen)

/-- The first byte of an argument, where an index outside the slots finds whatever lies there. -/
def argvByte (request : Content) (stale : UInt8) (index : Int) : UInt8 :=
  if 0 ≤ index ∧ index < (cmdNargs : Int) then
    (request[8 + cmdArgLen * index.toNat]?).getD 0 else stale

/-- The byte that asks for running a command in the background. -/
abbrev ampersand : UInt8 := 38

/-- The number of arguments that a new process gets. -/
def spawnArgc (request : Content) (stale : UInt8) : Int :=
  if argvByte request stale (reqArgc request - 1) = ampersand then reqArgc request - 1
  else reqArgc request

/-- The request that the shell sends for a command, in the message that carries it. -/
def spawnRequest (content : Content) (buf : List UInt8) (argc : Nat) : Content :=
  Content.load content (requestBytes procSpawn argc (parseRequest buf).1)

/-- Loads the program of a request and lets it run. -/
@[irreducible]
def startProgram (pid : Int) (reader : Nat → Treedisk.Block) (request : Content) (stale : UInt8) :
    MemM Unit := do
  elfLoad pid reader (spawnArgc request stale) (some (reqArgv request))
  softTlbSwitch pid

/-- The tokens of a command that are arguments of the program. -/
def mainArgs (all : List (List UInt8)) : List (List UInt8) :=
  if all.getLast?.bind List.head? = some ampersand then all.dropLast else all

section Requests

variable {args : Args} {argc : Nat} {all : List (List UInt8)} {content : Content}

/-- A request in a message begins with its own bytes. -/
theorem load_getElem? (type : Nat) {k : Nat} (inside : k < 8 + cmdNargs * cmdArgLen) :
    (Content.load content (requestBytes type argc args))[k]? =
      (requestBytes type argc args)[k]? := by
  have length : (requestBytes type argc args).length = 8 + cmdNargs * cmdArgLen := by
    rw [requestBytes, List.length_append, List.length_append, List.length_ofFn]
    simp only [littleEndian, List.length_map, List.length_range]
  have fits : k < Grass.syscallMsgLen := by
    simp only [cmdNargs, cmdArgLen, Grass.syscallMsgLen] at inside ⊢
    omega
  rw [Vector.getElem?_eq_getElem fits, List.getElem?_eq_getElem (by rw [length]; exact inside)]
  simp only [Grass.Content.load, Vector.getElem_ofFn]
  rw [List.getElem?_eq_getElem (by rw [length]; exact inside)]
  rfl

/-- A cell of the argument slots is found in the request. -/
theorem load_cell (type : Nat) {row column : Nat} (low : row < cmdNargs)
    (left : column < cmdArgLen) :
    (Content.load content (requestBytes type argc args))[8 + cmdArgLen * row + column]? =
      some (args.cells row column) := by
  -- The cell stands behind the two words, at its place among the rows.
  simp only [cmdNargs, cmdArgLen] at low left
  rw [load_getElem? type (by simp only [cmdNargs, cmdArgLen]; omega)]
  have words : (littleEndian type ++ littleEndian argc).length = 8 := by simp [littleEndian]
  rw [requestBytes, List.getElem?_append_right (by rw [words]; omega), words]
  have place : 8 + cmdArgLen * row + column - 8 = 32 * row + column := by
    simp only [cmdArgLen]
    omega
  have inside : 32 * row + column < (List.ofFn fun k : Fin (cmdNargs * cmdArgLen) =>
      args.cells (k / cmdArgLen) (k % cmdArgLen)).length := by
    simp only [List.length_ofFn, cmdNargs, cmdArgLen]
    omega
  rw [place, List.getElem?_eq_getElem inside, List.getElem_ofFn]
  simp only [cmdArgLen, Option.some.injEq]
  rw [show (32 * row + column) / 32 = row by omega, show (32 * row + column) % 32 = column by omega]

/-- The number of arguments is found in the request. -/
theorem reqArgc_load (type : Nat) (small : argc ≤ cmdNargs) :
    reqArgc (Content.load content (requestBytes type argc args)) = argc := by
  -- The four bytes of the word are those of the number.
  have bytes : ∀ k < 4, (Content.load content (requestBytes type argc args)).byte (4 + k) =
      argc / 256 ^ k % 256 := by
    intro k low
    have words : (littleEndian type).length = 4 := by simp [littleEndian]
    have here : (requestBytes type argc args)[4 + k]? = some (UInt8.ofNat (argc / 256 ^ k)) := by
      rw [requestBytes, List.append_assoc, List.getElem?_append_right (by rw [words]; omega), words,
        List.getElem?_append_left (by simp [littleEndian]; omega)]
      simp [littleEndian, low]
    rw [Buffer.byte, load_getElem? type (by simp only [cmdNargs, cmdArgLen]; omega), here]
    simp
  have word : (Content.load content (requestBytes type argc args)).word 1 = argc := by
    simp only [Buffer.word]
    rw [bytes 0 (by omega), bytes 1 (by omega), bytes 2 (by omega), bytes 3 (by omega)]
    simp only [cmdNargs] at small
    omega
  have below : argc < 2 ^ 31 := by
    simp only [cmdNargs] at small
    omega
  rw [reqArgc, word, signed, if_pos below]

/-- The slots of a request follow each other. -/
theorem reqArgv_load (type : Nat) {row column : Nat} (low : row < cmdNargs)
    (left : column < cmdArgLen) :
    (reqArgv (Content.load content (requestBytes type argc args)))[cmdArgLen * row + column]? =
      some (args.cells row column) := by
  have cell : (Content.load content (requestBytes type argc args))[8 + cmdArgLen * row + column]? =
      some (args.cells row column) := load_cell type low left
  simp only [cmdNargs, cmdArgLen] at low left
  rw [reqArgv, List.getElem?_take_of_lt (by simp only [cmdNargs, cmdArgLen]; omega),
    List.getElem?_drop, ← cell, Vector.getElem?_toList, Nat.add_assoc]

/-- The first byte of the last argument decides how many arguments the process gets. -/
theorem spawnArgc_parsed (parsed : Parsed args argc all) (some_ : 1 ≤ argc) (stale : UInt8)
    (type : Nat) :
    spawnArgc (Content.load content (requestBytes type argc args)) stale =
      (mainArgs all).length := by
  have few := parsed.few
  have count := parsed.count
  have last : argvByte (Content.load content (requestBytes type argc args)) stale
      ((argc : Int) - 1) = args.cells (argc - 1) 0 := by
    have inside : 0 ≤ (argc : Int) - 1 ∧ (argc : Int) - 1 < (cmdNargs : Int) := by
      simp only [cmdNargs] at few ⊢
      omega
    have index : ((argc : Int) - 1).toNat = argc - 1 := by omega
    have cell : (Content.load content (requestBytes type argc args))[8 + cmdArgLen * (argc - 1)]? =
        some (args.cells (argc - 1) 0) :=
      load_cell type (show argc - 1 < cmdNargs by omega) (show 0 < cmdArgLen by decide)
    rw [argvByte, if_pos inside, index, cell]
    rfl
  -- Tokens are not empty, so the byte is the first one of the last token.
  have byte : args.cells (argc - 1) 0 = (all.getLast?.bind List.head?).getD 0 := by
    rw [parsed.cells, count, List.getLast?_eq_getElem?]
    cases all[all.length - 1]? with
    | none => rfl
    | some token => cases token <;> rfl
  rw [spawnArgc, reqArgc_load type (by omega), last, byte, mainArgs]
  cases head : all.getLast?.bind List.head? with
  | none =>
    rw [if_neg (by decide), if_neg (by decide), count]
  | some c =>
    by_cases background : c = ampersand
    · subst background
      simp only [Option.getD_some, if_true, List.length_dropLast]
      omega
    · rw [if_neg (by simpa using background), if_neg (by simpa using background), count]

end Requests

/-- The arguments of a program are tokens of the command, from the first one on. -/
theorem mainArgs_getElem? (all : List (List UInt8)) {i : Nat} (inside : i < (mainArgs all).length) :
    (mainArgs all)[i]? = all[i]? := by
  unfold mainArgs at inside ⊢
  split
  · rename_i background
    rw [if_pos background, List.length_dropLast] at inside
    rw [List.getElem?_dropLast, if_pos inside]
  · rfl

/-- The arguments of a program are tokens of the command. -/
theorem mainArgs_subset (all : List (List UInt8)) : ∀ arg ∈ mainArgs all, arg ∈ all := by
  intro arg member
  unfold mainArgs at member
  split at member
  · exact List.mem_of_mem_dropLast member
  · exact member

/-- The arguments of an accepted command are on the page where the new process looks for them as
soon as it runs, and parsing any command writes only inside the slots for arguments. The last slot,
whose pid has no row in the table of pages, stays free. -/
theorem arguments_reach_main {ram : Nat → Page} {machine : Machine}
    {history : List Grass.Event}
    (reached : Machine.Reaches (fun m call => m.Permitted call ∧ m.Roomy call) ram machine history)
    {pid : Int} (job : machine.job = .loading pid 0 none) {reader : Nat → Treedisk.Block}
    (program : Program reader) (buf : List UInt8) (content : Content) (stale : UInt8) :
    (∀ cell ∈ (parseRequest buf).1.writes, cell.1 < cmdNargs ∧ cell.2 < cmdArgLen) ∧
    ∀ argc, (parseRequest buf).2 = some argc → 1 ≤ argc →
      argc = (tokens space buf).length ∧
      Ends (startProgram pid reader (spawnRequest content buf argc) stale)
        (fun _ after => ArgumentsAt (after.ram appsArg) (mainArgs (tokens space buf)))
        (fun _ _ => False) machine.memory := by
  refine ⟨parseRequest_inside buf, ?_⟩
  intro argc accepted some_
  have parsed := parseRequest_parsed accepted
  refine ⟨parsed.count, ?_⟩
  have sound := Machine.reaches_sound reached
  obtain ⟨idx, rfl, status, -, -⟩ := sound.loads pid 0 none job
  have known := Machine.idx2pid_known idx
  have accounted := sound.accounted
  rw [job, Job.hand] at accounted
  have free : ∀ i, ¬ machine.maps (Grass.idx2pid idx).toNat i := by
    intro i
    rw [Machine.maps_idx2pid]
    simp [Machine.mapped, status, job, Job.mapped]
  -- The process that is being loaded is not the one that runs.
  have other : Grass.idx2pid idx ≠ machine.memory.currVmPid := by
    rw [sound.vm, sound.formed.curr]
    intro same
    have runs := (sound.alone idx).mpr (Grass.idx2pid_inj.mp same)
    rw [status] at runs
    cases runs
  have bound : machine.memory.currVmPid ≤ (Grass.maxNprocess : Int) := by
    rw [sound.vm, sound.formed.curr]
    exact (Machine.idx2pid_known _).2
  rw [startProgram, ends_bind]
  refine (ends_elfLoad accounted known free program _ _).imp (fun _ middle loaded => ?_)
    (fun _ _ => id)
  have vm := loaded.vm
  refine (loaded.accounted.softTlbSwitch known (by rw [vm]; exact bound)).imp (fun _ after switched => ?_)
    (fun _ _ => id)
  have brought := switched.brought (by rw [vm]; exact other) argSlot (Or.inr rfl)
  rw [loaded.arguments, spawnRequest, spawnArgc_parsed parsed some_] at brought
  have place : execAddrOf argSlot = appsArg := by decide
  rw [place] at brought
  rw [brought]
  have shorter : (mainArgs (tokens space buf)).length ≤ (tokens space buf).length := by
    unfold mainArgs
    split
    · rw [List.length_dropLast]
      omega
    · exact Nat.le_refl _
  refine argPage_holds (Nat.le_trans shorter parsed.few)
    (fun arg member => parsed.shorter arg (mainArgs_subset _ arg member)) ?_
  intro i inside k column
  have few := parsed.few
  rw [reqArgv_load procSpawn (by omega) column, parsed.cells]
  have same := mainArgs_getElem? (tokens space buf) inside
  rw [List.getElem?_eq_getElem inside] at same
  rw [← same]
  rfl

/-- The bytes of a small executable: the place and the number of its program headers, and the
address and the size of its segment. -/
def smallByte : Nat → UInt8
  | 28 => 52
  | 44 => 1
  | 62 => 0x40
  | 63 => 0x80
  | 68 => 4
  | _ => 0

/-- A small executable. -/
def smallProgram (_ : Nat) : Treedisk.Block := Vector.ofFn fun k => smallByte k.val

/-- A small executable can be loaded. -/
theorem smallProgram_program : Program smallProgram := by
  -- Only the bytes of the header are looked at.
  have byte : ∀ k < Treedisk.blockSize, (smallProgram 0).byte k = (smallByte k).toNat := by
    intro k inside
    simp [Buffer.byte, smallProgram, Vector.getElem?_eq_getElem inside]
  have place : long (smallProgram 0) 28 = 52 := by
    simp only [long, half]
    rw [byte _ (by decide), byte _ (by decide), byte _ (by decide), byte _ (by decide)]
    rfl
  refine ⟨?_, ?_, ?_⟩
  · simp only [ePhnum, half]
    rw [byte _ (by decide), byte _ (by decide)]
    rfl
  · simp only [pheader, place]
    simp only [long, half]
    rw [byte _ (by decide), byte _ (by decide), byte _ (by decide), byte _ (by decide)]
    rfl
  · simp only [pheader, place]
    simp only [long, half]
    rw [byte _ (by decide), byte _ (by decide), byte _ (by decide), byte _ (by decide)]
    decide

/-- The first application after booting gets the words of its command without the last one. -/
theorem arguments_reach_echo :
    ∃ machine history, Machine.Reaches (fun m call => m.Permitted call ∧ m.Roomy call)
        (fun _ => Buffer.zero _) machine history ∧
      machine.job = .loading 6 0 none ∧ (parseRequest (ascii "echo hi &")).2 = some 3 ∧
      Ends (startProgram 6 smallProgram (spawnRequest (Buffer.zero _) (ascii "echo hi &") 3) 0)
        (fun _ after => ArgumentsAt (after.ram appsArg) [ascii "echo", ascii "hi"])
        (fun _ _ => False) machine.memory := by
  -- The run of the boot is computed, up to the allocation of pid 6.
  have ran : (follow (fun m call => Machine.Permitted m call ∧ Machine.Roomy m call) Machine.step
      (.initial fun _ => Buffer.zero _) (Machine.bootCalls ++ [.procAlloc])).map (fun reached => reached.1.job) =
      some (.loading 6 0 none) := by decide +kernel
  obtain ⟨⟨machine, history⟩, followed, job⟩ := Option.map_eq_some_iff.mp ran
  have reached : Machine.Reaches (fun m call => m.Permitted call ∧ m.Roomy call)
    (fun _ => Buffer.zero _) machine history := run_of_follow .start followed
  have accepted : (parseRequest (ascii "echo hi &")).2 = some 3 := by decide
  have words : mainArgs (tokens space (ascii "echo hi &")) = [ascii "echo", ascii "hi"] := by
    decide
  obtain ⟨-, arrive⟩ := arguments_reach_main reached job smallProgram_program
    (ascii "echo hi &") (Buffer.zero _) 0
  obtain ⟨-, ends⟩ := arrive 3 accepted (by decide)
  rw [words] at ends
  refine ⟨machine, history, reached, job, accepted, ?_⟩
  exact ends

end Egos.Apps
