import Egos.Earth.Spaces

/-! Private address spaces along whole runs: pages that come and go, and what switches bring. -/

namespace Egos.Earth

open Egos.Grass

section Isolation

variable {memory after : Memory} {fresh : List Nat} {ideal : Ideal} {pid : Int}

/-- An allocation returns a fresh page, or halts the machine when there is none. -/
theorem Isolated.alloc (isolated : Isolated memory fresh ideal) :
    Ends mmuAlloc (fun addr after => Isolated after (addr :: fresh) ideal) (fun _ _ => True)
      memory := by
  unfold mmuAlloc
  by_cases full : ∃ free < npages, bitmapTest memory.bitmap free = false
  · obtain ⟨free, inside, unused⟩ := full
    refine (ends_pmalloc true inside unused).imp (fun addr after taken => ?_)
      (fun _ _ => False.elim)
    obtain ⟨page, below, open_, rfl, rfl⟩ := taken
    simp only [if_true]
    -- Pages in use and fresh pages are marked, so that the new page is another one.
    have other : ∀ row i, memory.owns row i →
        (memory.appPages row i).privateAddr ≠ pageAddr page := by
      intro row i owned same
      obtain ⟨frame, -, own, marked⟩ := isolated.frames row i owned
      rw [own, pageAddr_inj] at same
      rw [same, open_] at marked
      cases marked
    have unlisted : ∀ addr ∈ fresh, addr ≠ pageAddr page := by
      intro addr listed same
      obtain ⟨⟨frame, -, own, marked⟩, -⟩ := isolated.spare addr listed
      rw [own, pageAddr_inj] at same
      rw [same, open_] at marked
      cases marked
    refine ⟨isolated.laid.congr rfl, ?_, isolated.places, ?_, ?_, isolated.current, ?_⟩
    · intro row i owned
      obtain ⟨frame, inside, own, marked⟩ := isolated.frames row i owned
      exact ⟨frame, inside, own, by simp [bitmapTest_set below, marked]⟩
    · intro addr listed
      rcases List.mem_cons.mp listed with rfl | earlier
      · refine ⟨⟨page, below, rfl, by simp [bitmapTest_set below]⟩, ?_, Function.update_self ..⟩
        intro row i same
        have owned : memory.owns row i := by
          intro null
          exact pageAddr_ne_zero page (same.symm.trans null)
        exact other row i owned same
      · obtain ⟨⟨frame, inside, own, marked⟩, elsewhere, clear⟩ := isolated.spare addr earlier
        refine ⟨⟨frame, inside, own, by simp [bitmapTest_set below, marked]⟩, elsewhere, ?_⟩
        simp only [Function.update_of_ne (unlisted addr earlier)]
        exact clear
    · exact List.nodup_cons.mpr ⟨fun listed => unlisted _ listed rfl, isolated.distinct⟩
    · intro row i owned
      have content := isolated.holds row i owned
      have apart : memory.home row i ≠ pageAddr page := by
        unfold Memory.home
        split
        · exact (isolated.places row i owned).2 page below
        · exact other row i owned
      change Function.update memory.ram (pageAddr page) (Buffer.zero _) (memory.home row i) = _
      rw [Function.update_of_ne apart]
      exact content
  · have none : firstFree memory.bitmap = none := by
      unfold firstFree
      rw [List.find?_eq_none]
      intro page member
      by_contra unused
      exact full ⟨page, List.mem_range.mp member, by simpa using unused⟩
    unfold pmalloc
    rw [ends_bind, ends_get, none]
    trivial

/-- A table with one more mapping. -/
structure Extended (memory after : Memory) (row : Nat) (i : Fin appsNpages)
    (mapping : PageMapping) : Prop where
  empty : ¬ memory.owns row i
  table : after.appPages = Function.update memory.appPages row
    (Function.update (memory.appPages row) i mapping)

/-- The new mapping is there. -/
theorem Extended.here {row : Nat} {i : Fin appsNpages} {mapping : PageMapping}
    (extended : Extended memory after row i mapping) : after.appPages row i = mapping := by
  simp [extended.table]

/-- A mapping that was there before is the same as before. -/
theorem Extended.there {row other : Nat} {i j : Fin appsNpages} {mapping : PageMapping}
    (extended : Extended memory after row i mapping) (different : ¬ (other = row ∧ j = i)) :
    after.appPages other j = memory.appPages other j := by
  rw [extended.table]
  exact update_mapping_of_ne different

/-- A mapping in use is the new one or was in use before. -/
theorem Extended.owned {row other : Nat} {i j : Fin appsNpages} {mapping : PageMapping}
    (extended : Extended memory after row i mapping) (owned : after.owns other j) :
    (other = row ∧ j = i) ∨
      memory.owns other j ∧ after.appPages other j = memory.appPages other j := by
  by_cases here : other = row ∧ j = i
  · exact Or.inl here
  · have same := extended.there here
    rw [Memory.owns, same] at owned
    exact Or.inr ⟨owned, same⟩

/-- One more mapping with addresses of its own does not get in the way of the others. -/
theorem Memory.Laid.extend (laid : memory.Laid) {row : Nat} {i : Fin appsNpages}
    {mapping : PageMapping} (extended : Extended memory after row i mapping)
    (proper : mapping.execAddr ≠ 0) (own : mapping.execAddr ≠ mapping.privateAddr)
    (new : ∀ j, memory.owns row j → (memory.appPages row j).execAddr ≠ mapping.execAddr)
    (apart : ∀ other j, memory.owns other j →
      (memory.appPages other j).privateAddr ≠ mapping.privateAddr ∧
      (memory.appPages other j).execAddr ≠ mapping.privateAddr ∧
      (memory.appPages other j).privateAddr ≠ mapping.execAddr) : after.Laid := by
  -- Each pair of mappings has the new one in it, or is an old pair.
  refine ⟨?_, ?_, ?_, ?_⟩
  · intro other j owned
    rcases extended.owned owned with ⟨rfl, rfl⟩ | ⟨old, same⟩
    · rw [extended.here]
      exact proper
    · rw [same]
      exact laid.runs other j old
  · intro other j k first second equal
    rcases extended.owned first with ⟨rfl, rfl⟩ | ⟨old, same⟩
    · rcases extended.owned second with ⟨-, rfl⟩ | ⟨older, alike⟩
      · rfl
      · rw [extended.here, alike] at equal
        exact absurd equal.symm (new k older)
    · rcases extended.owned second with ⟨rfl, rfl⟩ | ⟨older, alike⟩
      · rw [extended.here, same] at equal
        exact absurd equal (new j old)
      · rw [same, alike] at equal
        exact laid.single other j k old older equal
  · intro other j second k first later equal
    rcases extended.owned first with ⟨rfl, rfl⟩ | ⟨old, same⟩
    · rcases extended.owned later with ⟨rfl, rfl⟩ | ⟨older, alike⟩
      · exact ⟨rfl, rfl⟩
      · rw [extended.here, alike] at equal
        exact absurd equal.symm (apart second k older).1
    · rcases extended.owned later with ⟨rfl, rfl⟩ | ⟨older, alike⟩
      · rw [extended.here, same] at equal
        exact absurd equal (apart other j old).1
      · rw [same, alike] at equal
        exact laid.apart other j second k old older equal
  · intro other j second k first later
    rcases extended.owned first with ⟨rfl, rfl⟩ | ⟨old, same⟩
    · rw [extended.here]
      rcases extended.owned later with ⟨rfl, rfl⟩ | ⟨older, alike⟩
      · rw [extended.here]
        exact own
      · rw [alike]
        exact (apart second k older).2.2.symm
    · rw [same]
      rcases extended.owned later with ⟨rfl, rfl⟩ | ⟨older, alike⟩
      · rw [extended.here]
        exact (apart other j old).2.1
      · rw [alike]
        exact laid.outside other j second k old older

/-- A fresh page that is mapped becomes a clear page of the process. -/
theorem Isolated.extend (isolated : Isolated memory fresh ideal) (known : knownPid pid)
    (unloaded : pid ≠ memory.currVmPid) {va page : Nat} {i : Fin appsNpages}
    (extended : Extended memory after pid.toNat i ⟨page, va⟩) (bitmap : after.bitmap = memory.bitmap)
    (ram : after.ram = memory.ram) (vm : after.currVmPid = memory.currVmPid)
    (listed : page ∈ fresh) (proper : va ≠ 0) (aligned : va % pageSize = 0)
    (place : ∀ frame < npages, va ≠ pageAddr frame) (new : ¬ memory.hasPage pid va) :
    Isolated after (fresh.erase page)
      (Function.update ideal pid.toNat (Function.update (ideal pid.toNat) va (Buffer.zero _))) := by
  -- The page was spare, so no other process can see it.
  obtain ⟨⟨frame, inside, own, marked⟩, elsewhere, clear⟩ := isolated.spare page listed
  refine ⟨?_, ?_, ?_, ?_, isolated.distinct.erase page, by rw [vm]; exact isolated.current, ?_⟩
  · refine isolated.laid.extend extended proper (by rw [own]; exact place frame inside) ?_ ?_
    · intro j owned same
      exact new ⟨j, owned, same⟩
    · intro other j owned
      obtain ⟨held, below, kept, -⟩ := isolated.frames other j owned
      refine ⟨elsewhere other j, ?_, ?_⟩
      · rw [own]
        exact (isolated.places other j owned).2 frame inside
      · rw [kept]
        exact (place held below).symm
  · intro other j owned
    rw [bitmap]
    rcases extended.owned owned with ⟨rfl, rfl⟩ | ⟨old, same⟩
    · rw [extended.here]
      exact ⟨frame, inside, own, marked⟩
    · rw [same]
      exact isolated.frames other j old
  · intro other j owned
    rcases extended.owned owned with ⟨rfl, rfl⟩ | ⟨old, same⟩
    · rw [extended.here]
      exact ⟨aligned, place⟩
    · rw [same]
      exact isolated.places other j old
  · intro addr member
    rw [isolated.distinct.mem_erase_iff] at member
    obtain ⟨different, kept⟩ := member
    obtain ⟨marks, others, zero⟩ := isolated.spare addr kept
    rw [bitmap, ram]
    refine ⟨marks, fun other j => ?_, zero⟩
    by_cases here : other = pid.toNat ∧ j = i
    · obtain ⟨rfl, rfl⟩ := here
      rw [extended.here]
      exact different.symm
    · rw [extended.there here]
      exact others other j
  · intro other j owned
    rw [Memory.home, ram, vm]
    rcases extended.owned owned with ⟨rfl, rfl⟩ | ⟨old, same⟩
    · rw [extended.here, if_neg (by rw [known.row]; exact unloaded)]
      simp [clear]
    · have content := isolated.holds other j old
      rw [Memory.home] at content
      rw [same, content]
      by_cases rows : other = pid.toNat
      · subst rows
        have virtual : (memory.appPages pid.toNat j).execAddr ≠ va :=
          fun equal => new ⟨j, old, equal⟩
        simp [virtual]
      · simp [rows]

/-- Mapping a fresh page gives the process a clear page in its ideal memory. -/
theorem Isolated.map (isolated : Isolated memory fresh ideal) (known : knownPid pid)
    (unloaded : pid ≠ memory.currVmPid) {va page : Nat} (listed : page ∈ fresh) (proper : va ≠ 0)
    (place : ∀ frame < npages, va ≠ pageAddr frame) (new : ¬ memory.hasPage pid va) :
    Ends (softTlbMap pid va page) (fun _ after => Isolated after (fresh.erase page)
      (Function.update ideal pid.toNat (Function.update (ideal pid.toNat) va (Buffer.zero _))))
      (fun _ _ => True) memory := by
  -- The search either fails, which stops the machine, or finds a mapping without a page.
  unfold Earth.softTlbMap
  rw [ends_bind, ends_appRow known.passes, ends_bind, ends_assert]
  split
  · rename_i aligned
    rw [ends_bind, ends_get]
    cases found : (List.finRange appsNpages).find? fun i =>
        (memory.appPages pid.toNat i).privateAddr = 0 with
    | none =>
      simp only [found]
      trivial
    | some i =>
      have empty : ¬ memory.owns pid.toNat i := by
        have hit := List.find?_some found
        simpa [Memory.owns] using hit
      simp only [found, setMapping, ends_modify]
      exact isolated.extend known unloaded ⟨empty, rfl⟩ rfl rfl rfl listed proper aligned.2 place new
  · trivial

/-- Freeing the mappings of a row clears them and the marks of their pages. -/
structure Released (memory after : Memory) (row : Nat) (gone : Fin appsNpages → Prop) : Prop where
  ram : after.ram = memory.ram
  vm : after.currVmPid = memory.currVmPid
  others : ∀ other j, ¬ (other = row ∧ gone j) → after.appPages other j = memory.appPages other j
  cleared : ∀ j, gone j → (after.appPages row j).privateAddr = 0
  marks : ∀ page < npages, bitmapTest after.bitmap page ↔ bitmapTest memory.bitmap page ∧
    ∀ j, gone j → (memory.appPages row j).privateAddr ≠ pageAddr page

/-- All mappings of a process are freed. -/
theorem Isolated.released (isolated : Isolated memory fresh ideal) (known : knownPid pid) :
    Ends (softTlbFree pid) (fun _ after => Released memory after pid.toNat fun _ => True)
      (fun _ _ => False) memory := by
  unfold Earth.softTlbFree
  rw [ends_bind, ends_appRow known.passes]
  -- The mappings that the loop has come past are free.
  refine (Ends.forM (fun done after => Released memory after pid.toNat (· ∈ done)) ?_ ?_).imp
    (fun _ after held => ?_) (fun _ _ => id)
  · exact ⟨rfl, rfl, fun _ _ _ => rfl, by simp, by simp⟩
  · rintro done i rest middle split ⟨ram, vm, others, cleared, marks⟩
    have unseen : i ∉ done := by
      have distinct := List.nodup_finRange appsNpages
      rw [split, List.nodup_append] at distinct
      intro seen
      exact distinct.2.2 i seen i (List.mem_cons_self ..) rfl
    have entry : middle.appPages pid.toNat i = memory.appPages pid.toNat i :=
      others _ _ fun here => unseen here.2
    unfold Earth.freeMapping
    rw [ends_bind, ends_get]
    by_cases owned : memory.owns pid.toNat i
    · obtain ⟨frame, inside, own, -⟩ := isolated.frames _ i owned
      have filled : (middle.appPages pid.toNat i).privateAddr ≠ 0 := by
        rw [entry]
        exact owned
      rw [if_pos filled, entry, own]
      simp only [ends_bind, ends_pfree inside, setMapping, ends_modify]
      refine ⟨ram, vm, ?_, ?_, ?_⟩
      · intro other j different
        rw [List.mem_append, List.mem_singleton] at different
        have same := @update_mapping_of_ne middle.appPages pid.toNat other i j .null
          fun here => different ⟨here.1, Or.inr here.2⟩
        refine same.trans ?_
        exact others other j fun here => different ⟨here.1, Or.inl here.2⟩
      · intro j member
        by_cases same : j = i
        · subst same
          simp [PageMapping.null]
        · have earlier : j ∈ done := by
            rcases List.mem_append.mp member with earlier | last
            · exact earlier
            · exact absurd (List.mem_singleton.mp last) same
          have kept := @update_mapping_of_ne middle.appPages pid.toNat pid.toNat i j .null
            fun here => same here.2
          exact (congrArg PageMapping.privateAddr kept).trans (cleared j earlier)
      · intro page below
        simp only [bitmapTest_clear inside, Bool.and_eq_true, decide_eq_true_eq, marks page below,
          List.mem_append, List.mem_singleton]
        constructor
        · rintro ⟨different, marked, apart⟩
          refine ⟨marked, ?_⟩
          rintro j (earlier | rfl)
          · exact apart j earlier
          · rw [own, Ne, pageAddr_inj]
            exact different
        · rintro ⟨marked, apart⟩
          refine ⟨?_, marked, fun j earlier => apart j (Or.inl earlier)⟩
          rintro rfl
          exact apart i (Or.inr rfl) own
    · have spare : ¬ (middle.appPages pid.toNat i).privateAddr ≠ 0 := by
        rw [entry]
        exact owned
      have null : (memory.appPages pid.toNat i).privateAddr = 0 := not_not.mp owned
      rw [if_neg spare, ends_pure]
      refine ⟨ram, vm, ?_, ?_, ?_⟩
      · intro other j different
        rw [List.mem_append] at different
        exact others other j fun here => different ⟨here.1, Or.inl here.2⟩
      · intro j member
        rcases List.mem_append.mp member with earlier | last
        · exact cleared j earlier
        · rw [List.mem_singleton.mp last, entry]
          exact null
      · intro page below
        rw [marks page below]
        simp only [List.mem_append, List.mem_singleton]
        constructor
        · rintro ⟨marked, apart⟩
          refine ⟨marked, ?_⟩
          rintro j (earlier | rfl)
          · exact apart j earlier
          · rw [null]
            exact (pageAddr_ne_zero page).symm
        · rintro ⟨marked, apart⟩
          exact ⟨marked, fun j earlier => apart j (Or.inl earlier)⟩
  · obtain ⟨ram, vm, others, cleared, marks⟩ := held
    refine ⟨ram, vm, ?_, fun j _ => cleared j (List.mem_finRange j), ?_⟩
    · intro other j different
      exact others other j fun here => different ⟨here.1, trivial⟩
    · intro page below
      rw [marks page below]
      simp [List.mem_finRange]

/-- Freeing a process that is not loaded leaves the others alone. -/
theorem Isolated.free (isolated : Isolated memory fresh ideal) (known : knownPid pid) :
    Ends (softTlbFree pid) (fun _ after => Isolated after fresh ideal) (fun _ _ => False)
      memory := by
  -- The pages that become free belonged to the process alone.
  refine (isolated.released known).imp (fun _ after released => ?_) (fun _ _ => id)
  have kept : ∀ {row j}, after.owns row j → row ≠ pid.toNat ∧ memory.owns row j ∧
      after.appPages row j = memory.appPages row j := by
    intro row j owned
    have other : row ≠ pid.toNat := by
      rintro rfl
      exact owned (released.cleared j trivial)
    have same := released.others row j fun here => other here.1
    rw [Memory.owns, same] at owned
    exact ⟨other, owned, same⟩
  refine ⟨⟨?_, ?_, ?_, ?_⟩, ?_, ?_, ?_, isolated.distinct, ?_, ?_⟩
  · intro row j owned
    obtain ⟨-, old, same⟩ := kept owned
    rw [same]
    exact isolated.laid.runs row j old
  · intro row j k first second equal
    obtain ⟨-, old, same⟩ := kept first
    obtain ⟨-, older, alike⟩ := kept second
    rw [same, alike] at equal
    exact isolated.laid.single row j k old older equal
  · intro row j other k first second equal
    obtain ⟨-, old, same⟩ := kept first
    obtain ⟨-, older, alike⟩ := kept second
    rw [same, alike] at equal
    exact isolated.laid.apart row j other k old older equal
  · intro row j other k first second
    obtain ⟨-, old, same⟩ := kept first
    obtain ⟨-, older, alike⟩ := kept second
    rw [same, alike]
    exact isolated.laid.outside row j other k old older
  · intro row j owned
    obtain ⟨other, old, same⟩ := kept owned
    obtain ⟨frame, inside, own, marked⟩ := isolated.frames row j old
    rw [same]
    refine ⟨frame, inside, own, (released.marks frame inside).mpr ⟨marked, fun k _ equal => ?_⟩⟩
    have held : memory.owns pid.toNat k := by
      intro null
      exact pageAddr_ne_zero frame (equal.symm.trans null)
    exact other (isolated.laid.apart row j pid.toNat k old held (own.trans equal.symm)).1
  · intro row j owned
    obtain ⟨-, old, same⟩ := kept owned
    rw [same]
    exact isolated.places row j old
  · intro addr listed
    obtain ⟨⟨frame, inside, own, marked⟩, elsewhere, clear⟩ := isolated.spare addr listed
    refine ⟨⟨frame, inside, own, (released.marks frame inside).mpr ⟨marked, fun k _ equal => ?_⟩⟩,
      fun row j equal => ?_, by rw [released.ram]; exact clear⟩
    · exact elsewhere _ k (equal.trans own.symm)
    · have owned : after.owns row j := by
        intro null
        rw [null, own] at equal
        exact pageAddr_ne_zero frame equal.symm
      rw [(kept owned).2.2] at equal
      exact elsewhere row j equal
  · rw [released.vm]
    exact isolated.current
  · intro row j owned
    obtain ⟨-, old, same⟩ := kept owned
    rw [Memory.home, released.ram, released.vm, same]
    exact isolated.holds row j old

/-- The start keeps any ideal memory, as nothing is mapped. -/
theorem Isolated.initial (ram : Nat → Page) (ideal : Ideal) :
    Isolated (Spaces.initial ram ideal).memory [] ideal := by
  have nothing : ∀ row i, ¬ (Spaces.initial ram ideal).memory.owns row i :=
    fun row i owned => owned rfl
  refine ⟨⟨?_, ?_, ?_, ?_⟩, ?_, ?_, ?_, List.nodup_nil, Or.inl rfl, ?_⟩
  · exact fun row i owned => absurd owned (nothing row i)
  · exact fun row i _ owned => absurd owned (nothing row i)
  · exact fun row i _ _ owned => absurd owned (nothing row i)
  · exact fun row i _ _ owned => absurd owned (nothing row i)
  · exact fun row i owned => absurd owned (nothing row i)
  · exact fun row i owned => absurd owned (nothing row i)
  · intro addr listed
    cases listed
  · exact fun row i owned => absurd owned (nothing row i)

/-- Every permitted access keeps the memory together with the ideal one. -/
theorem Isolated.access {spaces : Spaces}
    (isolated : Isolated spaces.memory spaces.fresh spaces.ideal) {access : Access}
    (permitted : spaces.Permitted access) :
    Ends (Spaces.access spaces.fresh access)
      (fun fresh after => Isolated after fresh (spaces.ideal.step access)) (fun _ _ => True)
      spaces.memory := by
  -- Each access has its own lemma.
  cases access with
  | alloc =>
    rw [Spaces.access, ends_bind]
    exact isolated.alloc
  | map pid va page =>
    obtain ⟨known, unloaded, listed, proper, place, new⟩ := permitted
    rw [Spaces.access, ends_bind]
    exact isolated.map known unloaded listed proper place new
  | load pid va page offset byte =>
    obtain ⟨known, unloaded, ⟨i, owned, entry⟩, inside⟩ := permitted
    rw [Spaces.access, ends_bind, ends_modify]
    exact isolated.load known unloaded owned entry inside byte
  | switch pid =>
    rw [Spaces.access, ends_bind]
    exact (isolated.switch permitted).imp (fun _ _ held => held.1) fun _ _ => False.elim
  | store pid addr byte =>
    obtain ⟨loaded, positive, mapped⟩ := permitted
    rw [Spaces.access, ends_bind, ends_modify]
    exact isolated.store positive loaded mapped byte
  | msgcpy src dst srcAddr dstAddr size =>
    obtain ⟨source, target, mapped⟩ := permitted
    rw [Spaces.access, ends_bind]
    exact isolated.msgcpy source target mapped
  | free pid =>
    rw [Spaces.access, ends_bind]
    exact (isolated.free permitted.1).imp (fun _ _ held => held) fun _ _ => False.elim

/-- The memory and the ideal one stay together along every run. -/
theorem Spaces.Reaches.isolated {ram : Nat → Page} {ideal : Ideal} {spaces : Spaces}
    {history : List Unit} (reached : Spaces.Reaches ram ideal spaces history) :
    Isolated spaces.memory spaces.fresh spaces.ideal := by
  refine reached.invariant (fun spaces _ => Isolated spaces.memory spaces.fresh spaces.ideal)
    (Isolated.initial ram ideal) ?_
  intro spaces access after history events isolated taken
  obtain ⟨permitted, stepped⟩ := taken
  have kept := isolated.access permitted
  cases run : Spaces.access spaces.fresh access spaces.memory with
  | ok fresh memory =>
    simp only [Spaces.step, onMemory, run] at stepped
    obtain ⟨rfl, rfl⟩ := Prod.mk.inj (Except.ok.inj stepped)
    exact kept.ok run
  | error message memory =>
    simp only [Spaces.step, onMemory, run] at stepped
    cases stepped

/-- After every switch to a process, each of its virtual pages holds the bytes that the process, its
loader and the messages to it last stored there. -/
theorem switch_simulates_spaces {ram : Nat → Page} {ideal : Ideal} {spaces : Spaces}
    {history : List Unit} (reached : Spaces.Reaches ram ideal spaces history)
    (known : knownPid pid) :
    Ends (softTlbSwitch pid) (fun _ after => ∀ i, after.owns pid.toNat i →
      after.ram (after.appPages pid.toNat i).execAddr =
        spaces.ideal pid.toNat (after.appPages pid.toNat i).execAddr) (fun _ _ => False)
      spaces.memory := by
  refine (reached.isolated.switch known).imp (fun _ after held i owned => ?_) (fun _ _ => id)
  exact held.1.resident known held.2.1 owned

/-- Two processes run at the same page and store different bytes there. -/
def sharedPlaces : List Access :=
  [.alloc, .map 1 appsEntry (pageAddr 0), .load 1 appsEntry (pageAddr 0) 3 7, .alloc,
    .map 2 appsEntry (pageAddr 1), .switch 1, .store 1 (appsEntry + 4) 9, .switch 2,
    .store 2 (appsEntry + 4) 5, .msgcpy 2 1 (appsEntry + 4) appsEntry 1, .switch 2]

/-- The first of two processes has its own bytes after the second one ran. -/
theorem switch_simulates_shared : ∃ spaces history,
    Spaces.Reaches (fun _ => Buffer.zero _) (fun _ _ => Buffer.zero _) spaces history ∧
      spaces.memory.currVmPid = 2 ∧ spaces.memory.hasPage 1 appsEntry ∧
      readBytes (spaces.ideal 1) appsEntry 5 = [5, 0, 0, 7, 9] ∧
      Ends (softTlbSwitch 1) (fun _ after => ∀ i, after.owns 1 i →
        after.ram (after.appPages 1 i).execAddr = spaces.ideal 1 (after.appPages 1 i).execAddr)
        (fun _ _ => False) spaces.memory := by
  -- Both processes map the same address, and the second one has run last.
  have ran : (follow Spaces.Permitted Spaces.step
      (.initial (fun _ => Buffer.zero _) fun _ _ => Buffer.zero _) sharedPlaces).map (fun reached =>
        (decide (reached.1.memory.currVmPid = 2), decide (reached.1.memory.hasPage 1 appsEntry),
          readBytes (reached.1.ideal 1) appsEntry 5)) = some (true, true, [5, 0, 0, 7, 9]) := by
    decide +kernel
  obtain ⟨⟨spaces, history⟩, followed, facts⟩ := Option.map_eq_some_iff.mp ran
  have reached : Spaces.Reaches (fun _ => Buffer.zero _) (fun _ _ => Buffer.zero _) spaces history :=
    run_of_follow .start followed
  obtain ⟨loaded, rest⟩ := Prod.mk.inj facts
  obtain ⟨mapped, bytes⟩ := Prod.mk.inj rest
  exact ⟨spaces, history, reached, of_decide_eq_true loaded, of_decide_eq_true mapped, bytes,
    switch_simulates_spaces reached (by decide)⟩

end Isolation

end Egos.Earth
