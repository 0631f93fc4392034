import Egos.Apps.Shell
import Egos.Lib.Runs
import Mathlib.Data.List.Nodup
import Mathlib.Data.List.TakeWhile

/-! The working directory: its inode, and its path in a buffer that is edited in place. -/

namespace Egos.Apps

/-- Bytes for the path of the working directory. -/
abbrev workdirSize : Nat := 128

/-- The byte between the names of a path. -/
abbrev slash : UInt8 := 47

/-- The inode of the root directory. -/
abbrev rootIno : Int := 0

/-- Copies a string to the beginning of a buffer. -/
def strcpy (buf text : List UInt8) : Except String (List UInt8) :=
  if text.length < buf.length then return text ++ 0 :: buf.drop (text.length + 1)
  else throw "the string does not fit into the buffer"

/-- Appends a string to the one in a buffer. -/
def strcat (buf text : List UInt8) : Except String (List UInt8) :=
  let len := (cString buf).length
  if len + text.length < buf.length then
    return buf.take len ++ text ++ 0 :: buf.drop (len + text.length + 1)
  else throw "the string does not fit into the buffer"

/-- Appends some bytes of a string to the one in a buffer. -/
def strncat (buf text : List UInt8) (count : Nat) : Except String (List UInt8) :=
  strcat buf (text.take count)

/-- Appends a slash to the path in a buffer, unless the path is that of the root. -/
def addSlash (buf : List UInt8) : Except String (List UInt8) :=
  if (cString buf).length > 1 then strcat buf [slash] else return buf

/-- Clears a buffer from a place backwards to the last slash, and returns the place of the slash. -/
def clearBack : List UInt8 → Nat → Except String (List UInt8 × Nat)
  | buf, 0 => if buf[0]? = some slash then return (buf, 0) else throw "the path has no slash"
  | buf, len + 1 =>
    if buf[len + 1]? = some slash then return (buf, len + 1)
    else clearBack (buf.set (len + 1) 0) len

/-- A tree of directories, which are known by their inodes. -/
structure Tree where
  -- The child directories of a directory, and nothing for an inode that is none.
  children : Int → Option (List (List UInt8 × Int))
  parent : Int → Int

namespace Tree

/-- The entries of a directory. -/
def entries (tree : Tree) (dir : Int) : List (List UInt8 × Int) :=
  match tree.children dir with
  | none => []
  | some children => (ascii "./", dir) :: (ascii "../", tree.parent dir) ::
    children.map fun child => (child.1 ++ [slash], child.2)

/-- What the directory server answers: the inode of an entry, or `-1`. -/
def dirLookup (tree : Tree) (dir : Int) (name : List UInt8) : Int :=
  match (tree.entries dir).find? fun entry => entry.1 = name with
  | some entry => entry.2
  | none => -1

/-- A directory of the tree, with the names that lead to it from the root. -/
inductive Path (tree : Tree) : List (List UInt8) → Int → Prop where
  | root : Path tree [] rootIno
  | child {names : List (List UInt8)} {dir ino : Int} {name : List UInt8}
      {children : List (List UInt8 × Int)} (above : Path tree names dir)
      (listed : tree.children dir = some children) (member : (name, ino) ∈ children) :
      Path tree (names ++ [name]) ino

/-- A name that a child directory may have. -/
structure ProperName (name : List UInt8) : Prop where
  some_ : name ≠ []
  slash : slash ∉ name
  space : 32 ∉ name
  clean : 0 ∉ name
  short : name.length ≤ 30

/-- Directories have proper entries, and lead back to the directories that they are in. -/
structure Proper (tree : Tree) : Prop where
  root : (tree.children rootIno).isSome
  above : tree.parent rootIno = rootIno
  names : ∀ dir children, tree.children dir = some children → ∀ child ∈ children,
    ProperName child.1
  unique : ∀ dir, ((tree.entries dir).map Prod.fst).Nodup
  child : ∀ dir children, tree.children dir = some children → ∀ child ∈ children,
    (tree.children child.2).isSome ∧ tree.parent child.2 = dir ∧ 0 ≤ child.2

end Tree

/-- The working directory. -/
structure WorkDir where
  workdirIno : Int
  workdir : List UInt8
  deriving DecidableEq

/-- The command `cd` with its arguments, of which it looks at the first one only, and the status
that it returns. -/
def cd (tree : Tree) (args : List (List UInt8)) (state : WorkDir) :
    Except String (WorkDir × Int) :=
  match args with
  | [] => do
    let homeIno := tree.dirLookup 0 (ascii "home/")
    let workdir ← strcpy state.workdir (ascii "/home/cs6640")
    return (⟨tree.dirLookup homeIno (ascii "cs6640/"), workdir⟩, 0)
  | arg :: _ => do
    let name := cString arg ++ [slash]
    let dirIno := tree.dirLookup state.workdirIno name
    if dirIno = -1 then return (state, -1)
    else if name = ascii "./" then return (⟨dirIno, state.workdir⟩, 0)
    else
      if name ≠ ascii "../" then
        let workdir ← addSlash state.workdir
        return (⟨dirIno, ← strncat workdir name (name.length - 1)⟩, 0)
      else
        let (workdir, len) ← clearBack state.workdir (cString state.workdir).length
        return (⟨dirIno, if len ≠ 0 then workdir.set len 0 else workdir⟩, 0)

/-- The path of the directory with the given names below the root. -/
def pathText (names : List (List UInt8)) : List UInt8 :=
  if names = [] then [slash] else names.flatMap fun name => slash :: name

/-- The path in the buffer is that of the directory with the inode, below the given names. -/
structure WorkDir.At (tree : Tree) (state : WorkDir) (names : List (List UInt8)) : Prop where
  path : tree.Path names state.workdirIno
  text : cString state.workdir = pathText names
  size : state.workdir.length = workdirSize
  ends : (cString state.workdir).length < workdirSize

/-- The path in the buffer is the absolute path of the directory with the inode. -/
def WorkDir.Agrees (tree : Tree) (state : WorkDir) : Prop := ∃ names, state.At tree names

/-- A command that has returned. -/
structure Move where
  args : List (List UInt8)
  before : WorkDir
  after : WorkDir
  status : Int

/-- Path and inode agree after a command, and one that fails changes neither. -/
structure Move.Sound (tree : Tree) (move : Move) : Prop where
  agrees : move.after.Agrees tree
  fails : move.status ≠ 0 → move.after = move.before

/-- The states that are reached through commands. -/
abbrev Tree.Moves (tree : Tree) : WorkDir → WorkDir → List Move → Prop :=
  Run fun state args after moves => ∃ status, cd tree args state = .ok (after, status) ∧
    moves = [⟨args, state, after, status⟩]

section Buffers

variable {buf out text more rest : List UInt8}

/-- The string in a buffer ends in front of its null byte. -/
theorem cString_append (clean : 0 ∉ text) : cString (text ++ 0 :: rest) = text := by
  induction text with
  | nil => rfl
  | cons c text ih =>
    rw [List.mem_cons, not_or] at clean
    have nonzero : decide (c ≠ 0) = true := decide_eq_true (Ne.symm clean.1)
    have step : cString (c :: (text ++ 0 :: rest)) = c :: cString (text ++ 0 :: rest) :=
      List.takeWhile_cons_of_pos nonzero
    rw [List.cons_append, step, ih clean.2]

/-- No null byte is in the string. -/
theorem zero_notMem_cString (buf : List UInt8) : 0 ∉ cString buf := by
  intro member
  have nonzero := List.mem_takeWhile_imp member
  simp at nonzero

/-- A string that is shorter than its buffer ends there with a null byte. -/
theorem buffer_of_ends (ends : (cString buf).length < buf.length) :
    ∃ rest, buf = cString buf ++ 0 :: rest := by
  -- The first byte behind the string is the one at which it stopped.
  induction buf with
  | nil => cases ends
  | cons c buf ih =>
    by_cases zero : c = 0
    · rw [zero]
      exact ⟨buf, rfl⟩
    · have nonzero : decide (c ≠ 0) = true := decide_eq_true zero
      have step : cString (c :: buf) = c :: cString buf := List.takeWhile_cons_of_pos nonzero
      rw [step] at ends ⊢
      obtain ⟨rest, shape⟩ := ih (Nat.lt_of_succ_lt_succ ends)
      exact ⟨rest, congrArg (List.cons c) shape⟩

/-- Appending a string to another one. -/
theorem strcat_spec (ends : (cString buf).length < buf.length) (clean : 0 ∉ more)
    (appended : strcat buf more = .ok out) :
    cString out = cString buf ++ more ∧ out.length = buf.length ∧
      (cString out).length < buf.length := by
  -- The second string comes to the place of the null byte of the first.
  unfold strcat at appended
  dsimp only at appended
  split at appended
  · rename_i fits
    cases appended
    obtain ⟨rest, shape⟩ := buffer_of_ends ends
    have front : buf.take (cString buf).length = cString buf := by
      conv => enter [1, 2]; rw [shape]
      rw [List.take_left]
    have string : cString (cString buf ++ more ++
        0 :: buf.drop ((cString buf).length + more.length + 1)) = cString buf ++ more := by
      apply cString_append
      rw [List.mem_append]
      exact not_or.mpr ⟨zero_notMem_cString buf, clean⟩
    rw [front, string]
    refine ⟨rfl, ?_, ?_⟩
    · simp only [List.length_append, List.length_cons, List.length_drop]
      omega
    · rw [List.length_append]
      exact fits
  · cases appended

/-- Appending a string succeeds if there is room for it. -/
theorem strcat_ok (fits : (cString buf).length + more.length < buf.length) :
    ∃ out, strcat buf more = .ok out := by
  rw [strcat, if_pos fits]
  exact ⟨_, rfl⟩

/-- Clearing backwards ends at the last slash. -/
theorem clearBack_eq {front : List UInt8} : ∀ {count : Nat} {back : List UInt8},
    count ≤ back.length → (∀ k < count, back[k]? ≠ some slash) →
    clearBack (front ++ slash :: back) (front.length + count) =
      .ok (front ++ slash :: (List.replicate count 0 ++ back.drop count), front.length) := by
  -- Each round clears one more byte in front of those that are cleared already.
  intro count
  induction count with
  | zero =>
    intro back _ _
    have here : (front ++ slash :: back)[front.length]? = some slash := by simp
    rw [Nat.add_zero, List.replicate_zero, List.nil_append, List.drop_zero]
    cases length : front.length with
    | zero =>
      rw [length] at here
      rw [clearBack, if_pos here]
      rfl
    | succ len =>
      rw [length] at here
      rw [clearBack, if_pos here]
      rfl
  | succ count ih =>
    intro back inside others
    have place : (front ++ slash :: back)[front.length + count + 1]? = back[count]? := by
      rw [Nat.add_assoc, List.getElem?_append_right (Nat.le_add_right _ _), Nat.add_sub_cancel_left,
        List.getElem?_cons_succ]
    have cleared : (front ++ slash :: back).set (front.length + count + 1) 0 =
        front ++ slash :: back.set count 0 := by
      rw [Nat.add_assoc, List.set_append_right _ _ (Nat.le_add_right _ _), Nat.add_sub_cancel_left,
        List.set_cons_succ]
    rw [← Nat.add_assoc, clearBack, place, if_neg (others count (Nat.lt_succ_self _)), cleared,
      ih (by rw [List.length_set]; omega) ?_]
    · congr 4
      rw [List.replicate_succ', List.append_assoc, List.singleton_append]
      congr 1
      have here : count < (back.set count 0).length := by
        rw [List.length_set]
        omega
      rw [List.drop_eq_getElem_cons here, List.getElem_set_self, List.drop_set_of_lt (by omega)]
    · intro k below
      rw [List.getElem?_set_ne (by omega)]
      exact others k (Nat.lt_succ_of_lt below)

end Buffers

section Trees

variable {tree : Tree} {names : List (List UInt8)} {dir ino : Int} {name : List UInt8}

/-- The names of a path one after the other. -/
theorem pathText_concat (names : List (List UInt8)) (name : List UInt8) :
    pathText (names ++ [name]) =
      (if names = [] then [] else pathText names) ++ slash :: name := by
  unfold pathText
  rw [if_neg (by simp)]
  split
  · rename_i none
    simp [none]
  · simp

/-- The directory at the end of a path. -/
theorem Tree.Path.children (proper : tree.Proper) (path : tree.Path names ino) :
    (tree.children ino).isSome ∧ 0 ≤ ino := by
  cases path with
  | root => exact ⟨proper.root, Int.le_refl _⟩
  | child above listed member =>
    obtain ⟨some_, -, nonneg⟩ := proper.child _ _ listed _ member
    exact ⟨some_, nonneg⟩

/-- The names of a path are proper. -/
theorem Tree.Path.names_proper (proper : tree.Proper) (path : tree.Path names ino) :
    ∀ name ∈ names, Tree.ProperName name := by
  induction path with
  | root => exact nofun
  | child above listed member ih =>
    intro other inside
    rcases List.mem_append.mp inside with earlier | last
    · exact ih other earlier
    · rw [List.mem_singleton.mp last]
      exact proper.names _ _ listed _ member

/-- The last step of a path. -/
theorem Tree.Path.last (path : tree.Path (names ++ [name]) ino) :
    ∃ dir children, tree.Path names dir ∧ tree.children dir = some children ∧
      (name, ino) ∈ children := by
  generalize whole : names ++ [name] = all at path
  cases path with
  | root => simp at whole
  | child above listed member =>
    obtain ⟨rfl, same⟩ := List.append_inj' whole rfl
    obtain rfl := List.singleton_inj.mp same
    exact ⟨_, _, above, listed, member⟩

/-- The directory that a directory is in is the one that its path goes through. -/
theorem Tree.Path.parent (proper : tree.Proper) (path : tree.Path (names ++ [name]) ino) :
    tree.Path names (tree.parent ino) := by
  obtain ⟨dir, children, above, listed, member⟩ := path.last
  rw [(proper.child _ _ listed _ member).2.1]
  exact above

/-- No name leads to the root. -/
theorem Tree.Path.eq_root (path : tree.Path [] ino) : ino = rootIno := by
  generalize none : ([] : List (List UInt8)) = all at path
  cases path with
  | root => rfl
  | child above listed member => simp at none

/-- The string of a path has no null byte. -/
theorem zero_notMem_pathText (clean : ∀ name ∈ names, Tree.ProperName name) :
    0 ∉ pathText names := by
  unfold pathText
  split
  · decide
  · intro member
    obtain ⟨name, inside, here⟩ := List.mem_flatMap.mp member
    rcases List.mem_cons.mp here with zero | later
    · cases zero
    · exact (clean name inside).clean later

/-- A path is longer than one byte unless it is that of the root. -/
theorem one_lt_pathText (clean : ∀ name ∈ names, Tree.ProperName name) :
    (pathText names).length > 1 ↔ names ≠ [] := by
  cases names with
  | nil => simp [pathText]
  | cons name names =>
    have some_ := List.length_pos_iff.mpr (clean name (List.mem_cons_self ..)).some_
    refine iff_of_true ?_ (by simp)
    rw [pathText, if_neg (by simp), List.flatMap_cons, List.length_append, List.length_cons]
    omega

/-- The first name of a path ends in front of the next slash. -/
theorem takeWhile_slash (names : List (List UInt8)) (solid : slash ∉ name) :
    (name ++ names.flatMap fun name => slash :: name).takeWhile (fun c => c ≠ slash) = name := by
  have all : ∀ c ∈ name, decide (c ≠ slash) = true := by
    intro c member
    apply decide_eq_true
    rintro rfl
    exact solid member
  rw [List.takeWhile_append_of_pos all]
  cases names <;> simp

/-- Different names make different texts. -/
theorem flatMap_inj : ∀ {names others : List (List UInt8)},
    (∀ name ∈ names, Tree.ProperName name) → (∀ name ∈ others, Tree.ProperName name) →
    (names.flatMap fun name => slash :: name) = (others.flatMap fun name => slash :: name) →
    names = others := by
  -- The first names are the same, and so are the texts that are left.
  intro names
  induction names with
  | nil =>
    intro others _ _ same
    cases others with
    | nil => rfl
    | cons other others => simp at same
  | cons name names ih =>
    intro others clean clean_ same
    cases others with
    | nil => simp at same
    | cons other others =>
      rw [List.flatMap_cons, List.flatMap_cons, List.cons_append, List.cons_append] at same
      have left := List.tail_eq_of_cons_eq same
      have first : name = other := by
        rw [← takeWhile_slash names (clean name (List.mem_cons_self ..)).slash, left,
          takeWhile_slash others (clean_ other (List.mem_cons_self ..)).slash]
      subst first
      rw [ih (fun _ member => clean _ (List.mem_cons_of_mem _ member))
        (fun _ member => clean_ _ (List.mem_cons_of_mem _ member)) (List.append_cancel_left left)]

/-- Paths are told apart by their texts. -/
theorem pathText_inj {others : List (List UInt8)} (clean : ∀ name ∈ names, Tree.ProperName name)
    (clean_ : ∀ name ∈ others, Tree.ProperName name) (same : pathText names = pathText others) :
    names = others := by
  have long := one_lt_pathText clean
  rw [same, one_lt_pathText clean_] at long
  unfold pathText at same
  by_cases none : names = []
  · rw [none, not_not.mp (mt long.mp (not_not.mpr none))]
  · rw [if_neg none, if_neg (long.mpr none)] at same
    exact flatMap_inj clean clean_ same

/-- A directory leads to itself and to the directory that it is in. -/
theorem dirLookup_dots {children : List (List UInt8 × Int)}
    (listed : tree.children dir = some children) :
    tree.dirLookup dir (ascii "./") = dir ∧
      tree.dirLookup dir (ascii "../") = tree.parent dir := by
  have apart : ¬ ascii "./" = ascii "../" := by decide
  simp only [Tree.dirLookup, Tree.entries, listed, List.find?_cons, decide_true, apart,
    decide_false, and_self]

/-- Another name leads to a child directory or nowhere. -/
theorem dirLookup_cases {children : List (List UInt8 × Int)}
    (listed : tree.children dir = some children) (here : name ≠ ascii "./")
    (above : name ≠ ascii "../") :
    tree.dirLookup dir name = -1 ∨
      ∃ child ∈ children, name = child.1 ++ [slash] ∧ tree.dirLookup dir name = child.2 := by
  unfold Tree.dirLookup
  split
  · rename_i entry found
    have member := List.mem_of_find?_eq_some found
    have same : entry.1 = name := by simpa using List.find?_some found
    rw [Tree.entries, listed] at member
    simp only [List.mem_cons, List.mem_map] at member
    rcases member with rfl | rfl | ⟨child, inside, rfl⟩
    · exact absurd same.symm here
    · exact absurd same.symm above
    · exact Or.inr ⟨child, inside, same.symm, rfl⟩
  · exact Or.inl rfl

/-- A lookup finds every child directory. -/
theorem dirLookup_child (proper : tree.Proper) {children : List (List UInt8 × Int)}
    (listed : tree.children dir = some children) {child : List UInt8 × Int}
    (member : child ∈ children) : tree.dirLookup dir (child.1 ++ [slash]) = child.2 := by
  have entry : (child.1 ++ [slash], child.2) ∈ tree.entries dir := by
    rw [Tree.entries, listed]
    simp only [List.mem_cons, List.mem_map]
    exact Or.inr (Or.inr ⟨child, member, rfl⟩)
  unfold Tree.dirLookup
  split
  · -- No other entry has the same name.
    rename_i other found
    have same : other.1 = child.1 ++ [slash] := by simpa using List.find?_some found
    have one := List.inj_on_of_nodup_map (proper.unique dir) (List.mem_of_find?_eq_some found)
      entry same
    rw [one]
  · rename_i missing
    have absent := List.find?_eq_none.mp missing _ entry
    simp at absent

end Trees

section Moves

variable {tree : Tree} {state after : WorkDir} {names : List (List UInt8)} {status : Int}

/-- The command without a name returns. -/
theorem cd_home_returns (size : state.workdir.length = workdirSize) :
    ∃ after, cd tree [] state = .ok (after, 0) := by
  have fits : (ascii "/home/cs6640").length < state.workdir.length := by
    rw [size]
    decide
  rw [cd, strcpy, if_pos fits]
  exact ⟨_, rfl⟩

/-- The command without a name goes to the home directory, whether there is one or not. -/
theorem cd_home (size : state.workdir.length = workdirSize)
    (moved : cd tree [] state = .ok (after, status)) :
    cString after.workdir = ascii "/home/cs6640" ∧ after.workdir.length = workdirSize ∧
      after.workdirIno = tree.dirLookup (tree.dirLookup 0 (ascii "home/")) (ascii "cs6640/") ∧
      status = 0 := by
  have length : (ascii "/home/cs6640").length = 12 := by decide
  have fits : (ascii "/home/cs6640").length < state.workdir.length := by
    rw [size, length]
    decide
  rw [cd, strcpy, if_pos fits] at moved
  cases moved
  refine ⟨cString_append (by decide), ?_, rfl, rfl⟩
  simp only [List.length_append, List.length_cons, List.length_drop, length, size]
  decide

/-- The path of the directory above is what is in front of the last slash. -/
theorem clearBack_path {buf front name : List UInt8} (text : cString buf = front ++ slash :: name)
    (ends : (cString buf).length < buf.length) (solid : slash ∉ name) :
    ∃ back, clearBack buf (cString buf).length = .ok (front ++ slash :: 0 :: back, front.length) ∧
      (front ++ slash :: 0 :: back).length = buf.length := by
  -- Clearing stops at the last slash, which stands before the last name.
  obtain ⟨rest, shape⟩ := buffer_of_ends ends
  have whole : buf = front ++ slash :: (name ++ 0 :: rest) := by
    rw [shape, text]
    simp
  have place : (cString buf).length = front.length + (name.length + 1) := by
    rw [text, List.length_append, List.length_cons]
  refine ⟨List.replicate name.length 0 ++ rest, ?_, ?_⟩
  · rw [place, whole, clearBack_eq (by simp) ?_]
    · congr 4
      rw [List.replicate_succ, List.cons_append, List.drop_append, List.drop_eq_nil_of_le (by simp)]
      simp
    · intro k below
      rcases Nat.lt_succ_iff_lt_or_eq.mp below with inside | rfl
      · rw [List.getElem?_append_left inside]
        intro found
        exact solid (List.mem_of_getElem? found)
      · have zero : (0 : UInt8) ≠ slash := by decide
        simpa using zero
  · rw [whole]
    simp
    omega

/-- A buffer with a path and a null byte behind it. -/
theorem WorkDir.at_of_shape (proper : tree.Proper) {ino : Int} {buf rest : List UInt8}
    (path : tree.Path names ino) (shape : buf = pathText names ++ 0 :: rest)
    (size : buf.length = workdirSize) : WorkDir.At tree ⟨ino, buf⟩ names := by
  have text : cString buf = pathText names := by
    rw [shape]
    exact cString_append (zero_notMem_pathText (path.names_proper proper))
  refine ⟨path, text, size, ?_⟩
  rw [text, ← size, shape, List.length_append, List.length_cons]
  omega

/-- The command that goes up leaves the path of the directory above. -/
theorem cd_up (proper : tree.Proper) (at_ : state.At tree names) {workdir : List UInt8} {len : Nat}
    (cleared : clearBack state.workdir (cString state.workdir).length = .ok (workdir, len)) :
    WorkDir.At tree ⟨tree.parent state.workdirIno, if len ≠ 0 then workdir.set len 0 else workdir⟩
      names.dropLast := by
  obtain ⟨path, text, size, ends⟩ := at_
  have ends_ : (cString state.workdir).length < state.workdir.length := by
    rw [size]
    exact ends
  rcases List.eq_nil_or_concat names with rfl | ⟨above, name, rfl⟩
  · -- The root stays where it is.
    obtain ⟨back, equal, same⟩ := @clearBack_path _ [] [] text ends_ (by simp)
    rw [equal] at cleared
    cases cleared
    refine WorkDir.at_of_shape proper ?_ rfl (same.trans size)
    rw [path.eq_root, proper.above]
    exact .root
  · rw [List.concat_eq_append] at path text ⊢
    rw [pathText_concat] at text
    have last := path.names_proper proper name (by simp)
    obtain ⟨back, equal, same⟩ := clearBack_path text ends_ last.slash
    rw [equal] at cleared
    cases cleared
    have up := path.parent proper
    rw [List.dropLast_concat]
    by_cases none : above = []
    · rw [if_pos none] at same ⊢
      rw [none] at up ⊢
      exact WorkDir.at_of_shape proper up rfl (same.trans size)
    · -- The last slash is cleared, too, since another one is in front of it.
      rw [if_neg none] at same ⊢
      have some_ : (pathText above).length ≠ 0 := by
        have long := (one_lt_pathText (up.names_proper proper)).mpr none
        omega
      rw [if_pos some_, List.set_append_right _ _ (Nat.le_refl _), Nat.sub_self, List.set_cons_zero]
      refine WorkDir.at_of_shape proper up rfl ?_
      rw [← size, ← same]
      simp

/-- The command that goes down leaves the path of the child directory. -/
theorem cd_down (proper : tree.Proper) (at_ : state.At tree names) {name : List UInt8} {ino : Int}
    (path : tree.Path (names ++ [name]) ino) {middle workdir : List UInt8}
    (slashed : addSlash state.workdir = .ok middle)
    (appended : strcat middle name = .ok workdir) :
    WorkDir.At tree ⟨ino, workdir⟩ (names ++ [name]) := by
  obtain ⟨above, text, size, ends⟩ := at_
  have clean := (path.names_proper proper name (by simp)).clean
  have ends_ : (cString state.workdir).length < state.workdir.length := by
    rw [size]
    exact ends
  -- The path of the directory, with a slash behind it.
  have front : cString middle = (if names = [] then [] else pathText names) ++ [slash] ∧
      middle.length = workdirSize ∧ (cString middle).length < workdirSize := by
    have long := one_lt_pathText (above.names_proper proper)
    unfold addSlash at slashed
    by_cases none : names = []
    · rw [text, if_neg (mt long.mp (not_not.mpr none))] at slashed
      cases slashed
      rw [none] at text
      exact ⟨by rw [text, if_pos none]; rfl, size, ends⟩
    · rw [text, if_pos (long.mpr none)] at slashed
      obtain ⟨string, same, short⟩ := strcat_spec ends_ (by decide) slashed
      rw [size] at same short
      exact ⟨by rw [string, text, if_neg none], same, short⟩
  obtain ⟨string, same, short⟩ := front
  obtain ⟨whole, length, less⟩ := strcat_spec (by rw [same]; exact short) clean appended
  rw [same] at length less
  refine ⟨path, ?_, length, less⟩
  rw [whole, string, pathText_concat, List.append_assoc, List.singleton_append]

/-- A command with a name moves along the tree, or fails and changes nothing. -/
theorem cd_name (proper : tree.Proper) (at_ : state.At tree names) {arg : List UInt8}
    {others : List (List UInt8)} (moved : cd tree (arg :: others) state = .ok (after, status)) :
    after.Agrees tree ∧ (status ≠ 0 → after = state) := by
  obtain ⟨children, listed⟩ := Option.isSome_iff_exists.mp (at_.path.children proper).1
  rw [cd] at moved
  dsimp only at moved
  split at moved
  · -- No such directory is there.
    cases moved
    exact ⟨⟨names, at_⟩, fun _ => rfl⟩
  · rename_i found
    split at moved
    · rename_i here
      rw [here, (dirLookup_dots listed).1] at moved
      cases moved
      exact ⟨⟨names, at_⟩, fun fails => absurd rfl fails⟩
    · rename_i elsewhere
      split at moved
      · rename_i below
        -- The name is that of a child directory.
        obtain ⟨child, member, same, ino⟩ :=
          (dirLookup_cases listed elsewhere below).resolve_left found
        have word : cString arg = child.1 := (List.append_inj' same rfl).1
        rw [ino] at moved
        cases slashed : addSlash state.workdir with
        | error message =>
          rw [slashed] at moved
          cases moved
        | ok middle =>
          rw [slashed] at moved
          dsimp only [Bind.bind, Except.bind] at moved
          cases appended : strncat middle (cString arg ++ [slash])
            ((cString arg ++ [slash]).length - 1) with
          | error message =>
            rw [appended] at moved
            cases moved
          | ok workdir =>
            rw [appended] at moved
            cases moved
            rw [strncat, List.length_append, List.length_singleton, Nat.add_sub_cancel,
              List.take_left, word] at appended
            have path : tree.Path (names ++ [child.1]) child.2 := .child at_.path listed member
            exact ⟨⟨_, cd_down proper at_ path slashed appended⟩, fun fails => absurd rfl fails⟩
      · rename_i above
        rw [not_not.mp above, (dirLookup_dots listed).2] at moved
        cases cleared : clearBack state.workdir (cString state.workdir).length with
        | error message =>
          rw [cleared] at moved
          cases moved
        | ok out =>
          rw [cleared] at moved
          cases moved
          exact ⟨⟨_, cd_up proper at_ cleared⟩, fun fails => absurd rfl fails⟩

/-- A command with a name returns if the path of the directory that it leads to fits. -/
theorem cd_returns (proper : tree.Proper) (at_ : state.At tree names) {arg : List UInt8}
    (others : List (List UInt8))
    (fits : ∀ ino, tree.Path (names ++ [cString arg]) ino →
      (pathText (names ++ [cString arg])).length < workdirSize) :
    ∃ after status, cd tree (arg :: others) state = .ok (after, status) := by
  obtain ⟨children, listed⟩ := Option.isSome_iff_exists.mp (at_.path.children proper).1
  have ends : (cString state.workdir).length < state.workdir.length := by
    rw [at_.size]
    exact at_.ends
  rw [cd]
  dsimp only
  split
  · exact ⟨_, _, rfl⟩
  · rename_i found
    split
    · exact ⟨_, _, rfl⟩
    · rename_i elsewhere
      split
      · rename_i below
        -- There is room for a slash and for the name behind it.
        obtain ⟨child, member, same, ino⟩ :=
          (dirLookup_cases listed elsewhere below).resolve_left found
        have word : cString arg = child.1 := (List.append_inj' same rfl).1
        have room := fits child.2 (.child at_.path listed (by rw [word]; exact member))
        rw [pathText_concat, List.length_append, List.length_cons] at room
        have slashed : ∃ middle, addSlash state.workdir = .ok middle ∧
            middle.length = workdirSize ∧
            (cString middle).length + (cString arg).length < workdirSize := by
          have long := one_lt_pathText (at_.path.names_proper proper)
          unfold addSlash
          by_cases none : names = []
          · rw [at_.text, if_neg (mt long.mp (not_not.mpr none))]
            refine ⟨_, rfl, at_.size, ?_⟩
            rw [if_pos none, List.length_nil] at room
            rw [at_.text, none, pathText, if_pos rfl, List.length_singleton]
            omega
          · rw [at_.text, if_pos (long.mpr none)]
            rw [if_neg none, ← at_.text] at room
            have space :
                (cString state.workdir).length + [slash].length < state.workdir.length := by
              rw [at_.size, List.length_singleton]
              omega
            obtain ⟨middle, appended⟩ := strcat_ok space
            obtain ⟨string, size, -⟩ := strcat_spec ends (by decide) appended
            refine ⟨middle, appended, size.trans at_.size, ?_⟩
            rw [string, List.length_append, List.length_singleton]
            omega
        obtain ⟨middle, slashed, size, space⟩ := slashed
        rw [← size] at space
        obtain ⟨workdir, appended⟩ := strcat_ok space
        have cut : (cString arg ++ [slash]).take ((cString arg ++ [slash]).length - 1) =
            cString arg := by
          rw [List.length_append, List.length_singleton, Nat.add_sub_cancel, List.take_left]
        rw [slashed]
        dsimp only [Bind.bind, Except.bind]
        rw [strncat, cut, appended]
        exact ⟨_, _, rfl⟩
      · -- A path has a slash, up to which it is cleared.
        have last : ∃ front name, cString state.workdir = front ++ slash :: name ∧
            slash ∉ name := by
          rw [at_.text]
          rcases List.eq_nil_or_concat names with rfl | ⟨above, name, rfl⟩
          · exact ⟨[], [], rfl, List.not_mem_nil⟩
          · rw [List.concat_eq_append, pathText_concat]
            have proper_ := at_.path.names_proper proper name (by simp)
            exact ⟨_, name, rfl, proper_.slash⟩
        obtain ⟨front, name, text, solid⟩ := last
        obtain ⟨back, cleared, -⟩ := clearBack_path text ends solid
        rw [cleared]
        exact ⟨_, _, rfl⟩

/-- The name of the directory of home directories. -/
def home : List UInt8 := ascii "home"

/-- The name of the home directory. -/
def user : List UInt8 := ascii "cs6640"

/-- The command without a name ends in the home directory if there is one. -/
theorem cd_home_at (proper : tree.Proper) (size : state.workdir.length = workdirSize)
    {ino : Int} (path : tree.Path [home, user] ino)
    (moved : cd tree [] state = .ok (after, status)) : after.At tree [home, user] := by
  obtain ⟨text, same, found, -⟩ := cd_home size moved
  obtain ⟨dir, children, above, listed, member⟩ := @Tree.Path.last tree [home] ino user path
  obtain ⟨root, children_, top, listed_, member_⟩ := @Tree.Path.last tree [] dir home above
  rw [top.eq_root] at listed_
  have first : tree.dirLookup 0 (ascii "home/") = dir := dirLookup_child proper listed_ member_
  have second : tree.dirLookup dir (ascii "cs6640/") = ino := dirLookup_child proper listed member
  rw [first, second] at found
  refine ⟨?_, text, same, ?_⟩
  · rw [found]
    exact path
  · rw [text]
    decide

/-- A command is sound exactly if it has a name or there is a home directory. -/
theorem cd_sound_iff (proper : tree.Proper) (agrees : state.Agrees tree)
    {args : List (List UInt8)} (moved : cd tree args state = .ok (after, status)) :
    Move.Sound tree ⟨args, state, after, status⟩ ↔
      (args = [] → ∃ ino, tree.Path [home, user] ino) := by
  obtain ⟨names, at_⟩ := agrees
  cases args with
  | nil =>
    obtain ⟨text, -, -, done⟩ := cd_home at_.size moved
    constructor
    · -- The path in the buffer is always that of the home directory.
      intro sound _
      obtain ⟨names, there⟩ := sound.agrees
      have homeText : ascii "/home/cs6640" = pathText [home, user] := by decide
      have clean : ∀ name ∈ [home, user], Tree.ProperName name := by
        intro name member
        rcases List.mem_pair.mp member with rfl | rfl
        · exact ⟨by decide, by decide, by decide, by decide, by decide⟩
        · exact ⟨by decide, by decide, by decide, by decide, by decide⟩
      have same := pathText_inj (there.path.names_proper proper) clean
        (there.text.symm.trans (text.trans homeText))
      rw [same] at there
      exact ⟨_, there.path⟩
    · intro exists_
      obtain ⟨ino, path⟩ := exists_ rfl
      exact ⟨⟨_, cd_home_at proper at_.size path moved⟩, fun fails => absurd done fails⟩
  | cons arg others =>
    obtain ⟨agrees, fails⟩ := cd_name proper at_ moved
    exact iff_of_true ⟨agrees, fails⟩ nofun

end Moves

/-- Path and inode agree after every command exactly if the home directory exists or no command
asks for it. -/
theorem cd_agrees_iff {tree : Tree} (proper : tree.Proper) {start state : WorkDir}
    {history : List Move} (agrees : start.Agrees tree) (moved : tree.Moves start state history) :
    (∀ move ∈ history, move.Sound tree) ↔
      ((∃ move ∈ history, move.args = []) → ∃ ino, tree.Path [home, user] ino) := by
  -- As long as all commands are sound, the state from which the next one starts agrees.
  have invariant : ((∀ move ∈ history, move.Sound tree) ↔
      ((∃ move ∈ history, move.args = []) → ∃ ino, tree.Path [home, user] ino)) ∧
      ((∀ move ∈ history, move.Sound tree) → state.Agrees tree) := by
    induction moved with
    | start => exact ⟨by simp, fun _ => agrees⟩
    | step earlier taken ih =>
      obtain ⟨status, moved, rfl⟩ := taken
      obtain ⟨same, agree⟩ := ih
      simp only [List.mem_append, List.mem_singleton, or_and_right, exists_or, exists_eq_left,
        or_imp, forall_and, forall_eq]
      refine ⟨?_, fun sound => sound.2.agrees⟩
      rw [← same]
      exact and_congr_right fun sound => cd_sound_iff proper (agree sound) moved
  exact invariant.1

/-- The empty path, in the root. -/
def atRoot : WorkDir := ⟨rootIno, slash :: List.replicate 127 0⟩

/-- A tree with the home directory only. -/
def homes : Tree where
  children ino := if ino = 0 then some [(home, 1)] else if ino = 1 then some [(user, 2)] else
    if ino = 2 then some [] else none
  parent ino := if ino = 2 then 1 else 0

/-- A tree with the root directory only. -/
def rootOnly : Tree where
  children ino := if ino = 0 then some [] else none
  parent _ := 0

/-- The empty path leads to the root. -/
theorem atRoot_at (tree : Tree) : atRoot.At tree [] := by
  have shape : atRoot.workdir = [slash] ++ 0 :: List.replicate 126 0 := rfl
  have text : cString atRoot.workdir = [slash] := by
    rw [shape]
    exact cString_append (by decide)
  have size : atRoot.workdir.length = workdirSize := by
    simp only [shape, List.length_append, List.length_cons, List.length_replicate,
      List.length_nil, workdirSize]
  refine ⟨.root, text, size, ?_⟩
  rw [text]
  decide

/-- The tree with the home directory is well formed. -/
theorem homes_proper : homes.Proper where
  root := rfl
  above := rfl
  names := by
  -- Each directory of the tree is checked by itself.
    intro dir children listed child member
    simp only [homes] at listed
    split at listed
    · cases listed
      rw [List.mem_singleton.mp member]
      exact ⟨by decide, by decide, by decide, by decide, by decide⟩
    · split at listed
      · cases listed
        rw [List.mem_singleton.mp member]
        exact ⟨by decide, by decide, by decide, by decide, by decide⟩
      · split at listed
        · cases listed
          cases member
        · cases listed
  unique := by
    intro dir
    unfold Tree.entries
    by_cases zero : dir = 0
    · subst zero
      decide
    · by_cases one : dir = 1
      · subst one
        decide
      · by_cases two : dir = 2
        · subst two
          decide
        · simp [homes, zero, one, two]
  child := by
    intro dir children listed child member
    simp only [homes] at listed
    split at listed
    · rename_i zero
      cases listed
      rw [List.mem_singleton.mp member, zero]
      decide
    · split at listed
      · rename_i one
        cases listed
        rw [List.mem_singleton.mp member, one]
        decide
      · split at listed
        · cases listed
          cases member
        · cases listed

/-- A way to the home directory and up again. -/
theorem cd_agrees_homes : ∃ after history, homes.Moves atRoot after history ∧
    history.map Move.args = [[], [ascii ".."]] ∧ ∀ move ∈ history, move.Sound homes := by
  -- From the root down to the home directory, and up again through its second entry.
  have path : homes.Path [home, user] 2 :=
    .child (.child .root rfl (List.mem_singleton.mpr rfl)) rfl (List.mem_singleton.mpr rfl)
  obtain ⟨first, down⟩ := @cd_home_returns homes _ (atRoot_at homes).size
  have there := cd_home_at homes_proper (atRoot_at homes).size path down
  have returns : ∃ second status, cd homes [ascii ".."] first = .ok (second, status) := by
    apply cd_returns homes_proper there
    intro ino _
    decide
  obtain ⟨second, status, up⟩ := returns
  have begun : homes.Moves atRoot first ([] ++ [⟨[], atRoot, first, 0⟩]) :=
    .step .start ⟨0, down, rfl⟩
  have moved : homes.Moves atRoot second
      ([] ++ [⟨[], atRoot, first, 0⟩] ++ [⟨[ascii ".."], first, second, status⟩]) :=
    .step begun ⟨status, up, rfl⟩
  have start : atRoot.Agrees homes := ⟨[], atRoot_at homes⟩
  exact ⟨second, _, moved, rfl, (cd_agrees_iff homes_proper start moved).mpr fun _ => ⟨2, path⟩⟩

/-- Without a home directory, the path of the working directory is that of none. -/
theorem cd_home_missing : rootOnly.Proper ∧ atRoot.Agrees rootOnly ∧
    ∃ after, rootOnly.Moves atRoot after [⟨[], atRoot, after, 0⟩] ∧
      cString after.workdir = ascii "/home/cs6640" ∧ after.workdirIno = -1 ∧
      ¬ Move.Sound rootOnly ⟨[], atRoot, after, 0⟩ := by
  have proper : rootOnly.Proper := by
    refine ⟨rfl, rfl, ?_, ?_, ?_⟩
    · intro dir children listed child member
      simp only [rootOnly] at listed
      split at listed
      · cases listed
        cases member
      · cases listed
    · intro dir
      unfold Tree.entries
      by_cases zero : dir = 0
      · subst zero
        decide
      · simp [rootOnly, zero]
    · intro dir children listed child member
      simp only [rootOnly] at listed
      split at listed
      · cases listed
        cases member
      · cases listed
  obtain ⟨after, moved⟩ := @cd_home_returns rootOnly _ (atRoot_at rootOnly).size
  obtain ⟨text, -, found, -⟩ := cd_home (atRoot_at rootOnly).size moved
  have missing : after.workdirIno = -1 := by
    rw [found]
    decide
  refine ⟨proper, ⟨_, atRoot_at rootOnly⟩, after, .step .start ⟨0, moved, rfl⟩, text, missing, ?_⟩
  rintro ⟨⟨names, at_⟩, -⟩
  -- No path leads to an inode below zero.
  have nonneg := (at_.path.children proper).2
  rw [missing] at nonneg
  exact absurd nonneg (by decide)

end Egos.Apps
