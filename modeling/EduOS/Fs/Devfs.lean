import EduOS.Fs.Vfs
import EduOS.Library.SList

/-!
# The device file system

`fs/devfs.c`: a list of registered devices, each with an inode that `vfs_open` of the
device's path uses.

`vfs_alloc_inode` starts an inode with count 0, and the registry does not count its own
pointer.  The files opened on a device are therefore all that its inode knows of: when the
last of them is closed, `inode_put` frees the inode, and the device list keeps pointing to
it.  The module shows that this is the only way in which a registered inode is freed,
including by files that outlive the registration of their device.
-/

namespace EduOS

open Option

open Function List

/-! ## The source -/

def vfsMaxName : ℕ := 256

/-- `struct devfs_device`, without the link. -/
structure DevfsDevice where
  name : List (BitVec 8)
  major : ℕ
  minor : ℕ
  inode : ℕ

/-- `devfs_state`, `device_list`, and the files and inodes of the VFS. -/
structure Devfs (κ ω : Type) where
  initialized : Bool
  devices : SList Pointer
  device : Pointer → DevfsDevice
  vfs : VfsState κ ω

variable {κ ω : Type}

namespace Devfs

/-- `strcmp(dev->name, name) == 0` -/
def named (s : Devfs κ ω) (name : List (BitVec 8)) (dev : Pointer) : Bool :=
  (s.device dev).name = name

/-- The walks over the list that look for a name. -/
def findDevice (s : Devfs κ ω) (name : List (BitVec 8)) : Option (Option Pointer) :=
  s.devices.find (s.named name) (2 ^ 32)

end Devfs

/-- `vfs_alloc_inode` at an address that `kmalloc` gives, and the fields `devfs` sets. -/
def devfsInode (fops : κ) : VfsInode κ := ⟨0, 0, some fops, none⟩

/-- `devfs_register_device`; `allocDev` and `allocInode` are what `kmalloc` gives. -/
def devfsRegisterDevice (allocDev : Option Pointer) (allocInode : Option ℕ)
    (name : List (BitVec 8)) (major minor : ℕ) (fops : κ) (s : Devfs κ ω) :
    Option (Except ℕ Unit × Devfs κ ω) :=
  if !s.initialized then some (.error einval, s)
  else
    (s.findDevice name).bind fun
      | some _ => some (.error eexist, s)
      | none =>
        match allocDev, allocInode with
        | some dev, some inode =>
          some (.ok (),
            { s with
              devices := s.devices.push dev
              device := update s.device dev ⟨name.take (vfsMaxName - 1), major, minor, inode⟩
              vfs := { s.vfs with
                inodes := update s.vfs.inodes inode (some (devfsInode fops)) } })
        | _, _ => some (.error enomem, s)

/-- `vfs_free_inode`; freeing what has been freed is a fault. -/
def vfsFreeInode (inode : ℕ) (s : VfsState κ ω) : Option (VfsState κ ω) :=
  (s.inodes inode).map fun _ => { s with inodes := update s.inodes inode none }

/-- `devfs_unregister_device` -/
def devfsUnregisterDevice (name : List (BitVec 8)) (s : Devfs κ ω) :
    Option (Except ℕ Unit × Devfs κ ω) :=
  if !s.initialized then some (.error einval, s)
  else
    (s.devices.unlink (s.named name) (2 ^ 32)).bind fun
      | (_, none) => some (.error enoent, s)
      | (devices, some dev) =>
        (vfsFreeInode (s.device dev).inode s.vfs).map fun vfs =>
          (.ok (), { s with devices := devices, vfs := vfs })

/-- `devfs_lookup`: the dentry it makes, with its inode; `allocated` says whether `kmalloc`
has room for it. -/
def devfsLookup (allocated : Bool) (name : List (BitVec 8)) (s : Devfs κ ω) :
    Option (Option (Option ℕ)) :=
  (s.findDevice name).map fun
    | none => none
    | some dev => if allocated then some (some (s.device dev).inode) else none

/-- `vfs_open` of the path of a device. -/
def devfsOpen (ops : κ → FileOperations κ ω) (allocDentry : Bool) (allocFile : Option ℕ)
    (name : List (BitVec 8)) (flags : BitVec 32) (s : Devfs κ ω) :
    Option (Except ℕ (Fin maxOpenFiles) × Devfs κ ω) :=
  (devfsLookup allocDentry name s).bind fun dentry =>
    (vfsOpen ops allocFile dentry flags s.vfs).map fun r => (r.1, { s with vfs := r.2 })

/-! ## Runs -/

/-- The calls on devices and their files. -/
inductive DevfsCall (κ : Type) where
  | register (allocDev : Option Pointer) (allocInode : Option ℕ) (name : List (BitVec 8))
      (major minor : ℕ) (fops : κ)
  | openPath (allocDentry : Bool) (allocFile : Option ℕ) (name : List (BitVec 8))
      (flags : BitVec 32)
  | close (fd : Fin maxOpenFiles)
  | unregister (name : List (BitVec 8))

/-- One call. -/
def devfsStep (ops : κ → FileOperations κ ω) (s : Devfs κ ω) : DevfsCall κ → Option (Devfs κ ω)
  | .register allocDev allocInode name major minor fops =>
    (devfsRegisterDevice allocDev allocInode name major minor fops s).map Prod.snd
  | .openPath allocDentry allocFile name flags =>
    (devfsOpen ops allocDentry allocFile name flags s).map Prod.snd
  | .close fd => (vfsClose ops fd s.vfs).map fun r => { s with vfs := r.2 }
  | .unregister name => (devfsUnregisterDevice name s).map Prod.snd

/-- The devices on the list. -/
def Devfs.Registered (s : Devfs κ ω) (devs : List Pointer) : Prop := s.devices.Holds devs

/-- A walk over the list meets no device that passes the test. -/
def Devfs.NoDevice (s : Devfs κ ω) (test : Pointer → Bool) : Prop :=
  s.devices.find test (2 ^ 32) = some none

/-- `kmalloc` gives addresses that are not in use: no device on the list, no inode and no
file that has not been freed. -/
def DevfsLegal (s : Devfs κ ω) : DevfsCall κ → Prop
  | .register allocDev allocInode _ _ _ _ =>
    (∀ dev ∈ allocDev, s.NoDevice fun other => other = dev) ∧
      ∀ inode ∈ allocInode, (s.vfs.inodes inode).isNone
  | .openPath _ allocFile _ _ => ∀ file ∈ allocFile, (s.vfs.files file).isNone
  | .close _ | .unregister _ => True

/-- No inode on the device list has been freed. -/
def DevicesAlive (s : Devfs κ ω) : Prop :=
  ∃ devs, s.Registered devs ∧ ∀ dev ∈ devs, s.vfs.inodes (s.device dev).inode ≠ none

/-- The call, if it returns, leaves the registered inodes alive. -/
def LeavesAlive (ops : κ → FileOperations κ ω) (s : Devfs κ ω) (call : DevfsCall κ) : Prop :=
  ∀ s', devfsStep ops s call = some s' → DevicesAlive s'

/-- `vfs_close` does not drop the last counted reference to the inode of a registered
device. -/
def NotLastClose (s : Devfs κ ω) : DevfsCall κ → Prop
  | .close fd =>
    ∀ file ∈ s.vfs.openFiles fd, ∀ object ∈ s.vfs.files file, ∀ inode ∈ object.inode,
      ∀ node ∈ s.vfs.inodes inode, object.refCount ≤ 1 → node.refCount ≤ 1 →
        s.NoDevice fun dev => (s.device dev).inode = inode
  | .register _ _ _ _ _ _ | .openPath _ _ _ _ | .unregister _ => True

instance (s : Devfs κ ω) (test : Pointer → Bool) : Decidable (s.NoDevice test) :=
  inferInstanceAs (Decidable (_ = _))

-- a pointer has finitely many values, so the instance for an `Option` has to be named
instance (s : Devfs κ ω) : (call : DevfsCall κ) → Decidable (DevfsLegal s call)
  | .register allocDev allocInode _ _ _ _ =>
    @instDecidableAnd _ _ (Option.decidableForallMem allocDev)
      (Option.decidableForallMem allocInode)
  | .openPath _ allocFile _ _ => Option.decidableForallMem allocFile
  | .close _ | .unregister _ => inferInstanceAs (Decidable True)

instance (s : Devfs κ ω) : (call : DevfsCall κ) → Decidable (NotLastClose s call)
  | .close _ => inferInstanceAs (Decidable (∀ _ ∈ (_ : Option _), _))
  | .register _ _ _ _ _ _ | .openPath _ _ _ _ | .unregister _ =>
    inferInstanceAs (Decidable True)

/-! ## What the VFS does to inodes -/

variable {flags : BitVec 32} {fd : Fin maxOpenFiles}

section

variable {ops : κ → FileOperations κ ω} {s s' : VfsState κ ω}

@[simp] theorem releaseFile_inodes (object : OpenFile κ) (s : VfsState κ ω) :
    (releaseFile ops object s).inodes = s.inodes := by
  unfold releaseFile
  split <;> rfl

theorem openOperation_inodes {object : OpenFile κ} {result : Except ℕ (OpenFile κ)}
    (opened : openOperation ops object s = some (result, s')) : s'.inodes = s.inodes := by
  unfold openOperation at opened
  split at opened
  · cases opened
    rfl
  obtain ⟨⟨outcome, pos, world⟩, _, same⟩ := map_eq_some_iff.mp opened
  cases outcome with
  | ok _ =>
    cases same
    rfl
  | error e =>
    cases same
    rfl

theorem openSlot_inodes (file : ℕ) (object : OpenFile κ) (s : VfsState κ ω) :
    (openSlot ops file object s).2.inodes = s.inodes := by
  unfold openSlot
  split
  · exact releaseFile_inodes object s
  · rfl

/-- Opening frees no inode. -/
theorem vfsOpen_alive {allocated : Option ℕ} {dentry : Option (Option ℕ)}
    {result : Except ℕ (Fin maxOpenFiles)}
    (opened : vfsOpen ops allocated dentry flags s = some (result, s')) {i : ℕ}
    (alive : s.inodes i ≠ none) : s'.inodes i ≠ none := by
  unfold vfsOpen at opened
  split at opened
  · cases opened
    exact alive
  split at opened
  · cases opened
    exact alive
  split at opened
  · cases opened
    exact alive
  rename_i inode _ _ file
  obtain ⟨object, _, opened⟩ := bind_eq_some_iff.mp opened
  obtain ⟨t, got, opened⟩ := bind_eq_some_iff.mp opened
  obtain ⟨⟨outcome, u⟩, operated, same⟩ := map_eq_some_iff.mp opened
  have counted : t.inodes i ≠ none := by
    obtain ⟨node, found, rfl⟩ := map_eq_some_iff.mp got
    by_cases here : i = inode
    · subst here
      simp
    · simpa [update_of_ne here] using alive
  rw [← openOperation_inodes operated] at counted
  cases outcome with
  | error e =>
    cases same
    exact counted
  | ok object =>
    have unchanged : (openSlot ops file object u).2.inodes = u.inodes :=
      openSlot_inodes file object u
    rw [show openSlot ops file object u = (result, s') from same] at unchanged
    rwa [unchanged]

/-- Closing frees the inode of the file if both counts are at most 1, and no other. -/
theorem vfsClose_inodes {result : Except ℕ Unit}
    (closed : vfsClose ops fd s = some (result, s')) (i : ℕ) (alive : s.inodes i ≠ none) :
    s'.inodes i = none ↔
      ∃ file object node, s.openFiles fd = some file ∧ s.files file = some object ∧
        object.refCount ≤ 1 ∧ object.inode = some i ∧ s.inodes i = some node ∧
        node.refCount ≤ 1 := by
  unfold vfsClose at closed
  split at closed
  case h_1 none_open =>
    cases closed
    refine iff_of_false alive ?_
    rintro ⟨file, _, _, opened, _⟩
    exact absurd (none_open.symm.trans opened) (by simp)
  case h_2 file opened =>
    obtain ⟨t, put, same⟩ := map_eq_some_iff.mp closed
    cases same
    obtain ⟨object, found, put⟩ := bind_eq_some_iff.mp put
    -- the file and the object of the right side are these
    have only : ∀ file' object', s.openFiles fd = some file' → s.files file' = some object' →
        object' = object := by
      intro file' object' opened' found'
      obtain rfl := mem_unique opened opened'
      exact (mem_unique found found').symm
    by_cases last : object.refCount - 1 = 0
    · rw [if_pos last] at put
      obtain ⟨u, dropped, rfl⟩ := map_eq_some_iff.mp put
      show u.inodes i = none ↔ _
      unfold putInode at dropped
      split at dropped
      case h_1 no_inode =>
        cases dropped
        rw [releaseFile_inodes]
        refine iff_of_false alive ?_
        rintro ⟨file', object', _, opened', found', _, inode', _⟩
        rw [only file' object' opened' found', no_inode] at inode'
        exact absurd inode' (by simp)
      case h_2 inode has_inode =>
        obtain ⟨node, live, rfl⟩ := map_eq_some_iff.mp dropped
        rw [releaseFile_inodes] at live
        simp only [releaseFile_inodes]
        by_cases here : i = inode
        · subst here
          rw [update_self]
          constructor
          · intro freed
            have zero : node.refCount - 1 = 0 := by
              by_contra more
              simp [more] at freed
            exact ⟨file, object, node, opened, found, by omega, has_inode, live, by omega⟩
          · rintro ⟨_, _, node', _, _, _, _, live', small⟩
            obtain rfl := mem_unique live live'
            exact if_pos (by omega)
        · rw [update_of_ne here]
          refine iff_of_false alive ?_
          rintro ⟨file', object', _, opened', found', _, inode', _⟩
          rw [only file' object' opened' found', has_inode] at inode'
          exact here (Option.some.inj inode').symm
    · rw [if_neg last] at put
      cases put
      refine iff_of_false alive ?_
      rintro ⟨file', object', _, opened', found', small, _⟩
      rw [only file' object' opened' found'] at small
      omega

end

/-! ## The registry -/

/-- The device list is a list, its inodes are alive, and no two devices share one. -/
structure DevfsInv (s : Devfs κ ω) (devs : List Pointer) : Prop where
  listed : s.Registered devs
  alive : ∀ dev ∈ devs, s.vfs.inodes (s.device dev).inode ≠ none
  distinct : ∀ dev ∈ devs, ∀ other ∈ devs,
    (s.device dev).inode = (s.device other).inode → dev = other

namespace DevfsInv

variable {s s' : Devfs κ ω} {devs : List Pointer} (ops : κ → FileOperations κ ω)

theorem noDevice_iff (listed : s.Registered devs) (test : Pointer → Bool) :
    s.NoDevice test ↔ ∀ dev ∈ devs, test dev = false := by
  rw [Devfs.NoDevice, SList.Holds.find listed test (Pointer.length_lt (SList.Holds.nodup listed)),
    Option.some.injEq, find?_eq_none]
  simp [Bool.not_eq_true]

theorem findDevice_eq (inv : DevfsInv s devs) (name : List (BitVec 8)) :
    s.findDevice name = some (devs.find? (s.named name)) :=
  inv.listed.find _ (Pointer.length_lt inv.listed.nodup)

/-- The list stays, and no inode of it is freed. -/
theorem of_alive (inv : DevfsInv s devs) {vfs : VfsState κ ω}
    (alive : ∀ dev ∈ devs, vfs.inodes (s.device dev).inode ≠ none) :
    DevfsInv { s with vfs := vfs } devs :=
  ⟨inv.listed, alive, inv.distinct⟩

variable {name : List (BitVec 8)} {call : DevfsCall κ}

/-- Registering a device: its inode is one that nobody has. -/
theorem register (inv : DevfsInv s devs) {allocDev : Option Pointer} {allocInode : Option ℕ}
    {major minor : ℕ} {fops : κ}
    (legal : DevfsLegal s (.register allocDev allocInode name major minor fops)) :
    ∃ s' devs', devfsStep ops s (.register allocDev allocInode name major minor fops) = some s' ∧
      DevfsInv s' devs' := by
  unfold devfsStep devfsRegisterDevice
  by_cases off : (!s.initialized) = true
  · exact ⟨s, devs, by simp [off], inv⟩
  simp only [off, Bool.false_eq_true, if_false, inv.findDevice_eq name, bind_some]
  cases devs.find? (s.named name) with
  | some dev => exact ⟨s, devs, rfl, inv⟩
  | none =>
    cases allocDev with
    | none => exact ⟨s, devs, rfl, inv⟩
    | some dev =>
      cases allocInode with
      | none => exact ⟨s, devs, rfl, inv⟩
      | some inode =>
        have fresh : dev ∉ devs := by
          intro mem
          have apart := (noDevice_iff inv.listed _).mp (legal.1 dev rfl) dev mem
          simp at apart
        have unused : s.vfs.inodes inode = none := by
          simpa using legal.2 inode rfl
        have apart : ∀ other ∈ devs, other ≠ dev ∧ (s.device other).inode ≠ inode := by
          intro other mem
          refine ⟨fun same => fresh (same ▸ mem), fun same => ?_⟩
          exact inv.alive other mem (same ▸ unused)
        refine ⟨_, dev :: devs, rfl, inv.listed.push fresh, ?_, ?_⟩
        · intro other mem
          rcases mem_cons.mp mem with rfl | mem
          · simp
          · simpa [update_of_ne (apart other mem).1,
              update_of_ne (apart other mem).2] using inv.alive other mem
        · intro first mem second mem' same
          rcases mem_cons.mp mem with rfl | old <;>
            rcases mem_cons.mp mem' with rfl | old'
          · rfl
          · simp only [update_self, update_of_ne (apart second old').1] at same
            exact absurd same.symm (apart second old').2
          · simp only [update_self, update_of_ne (apart first old).1] at same
            exact absurd same (apart first old).2
          · simp only [update_of_ne (apart first old).1, update_of_ne (apart second old').1] at same
            exact inv.distinct first old second old' same

/-- Unregistering a device frees its inode and no other device's. -/
theorem unregister (inv : DevfsInv s devs) (name : List (BitVec 8)) :
    ∃ s' devs', devfsStep ops s (.unregister name) = some s' ∧ DevfsInv s' devs' := by
  unfold devfsStep devfsUnregisterDevice
  by_cases off : (!s.initialized) = true
  · exact ⟨s, devs, by simp [off], inv⟩
  obtain ⟨rest, unlinked, holds⟩ :=
    inv.listed.unlink (s.named name) (Pointer.length_lt inv.listed.nodup)
  simp only [off, Bool.false_eq_true, if_false, unlinked, bind_some]
  cases found : devs.find? (s.named name) with
  | none => exact ⟨s, devs, rfl, inv⟩
  | some dev =>
    have mem := mem_of_find?_eq_some found
    obtain ⟨node, live⟩ := ne_none_iff_exists'.mp (inv.alive dev mem)
    -- the element unlinked is the one found, and it stands on the list once
    have gone : ∀ other ∈ devs.eraseP (s.named name), other ∈ devs ∧ other ≠ dev := by
      intro other there
      obtain ⟨x, front, back, before, hit, split, rest_eq⟩ :=
        exists_of_eraseP mem (find?_some found)
      have first : x = dev := by
        rw [split, find?_append, find?_eq_none.mpr (by simpa using before),
          none_or, find?_cons_of_pos hit] at found
        exact Option.some.inj found
      subst first
      have nodup := inv.listed.nodup
      rw [split, nodup_middle, nodup_cons] at nodup
      rw [rest_eq] at there
      refine ⟨?_, fun same => nodup.1 (same ▸ there)⟩
      rw [split]
      simp only [mem_append, mem_cons] at there ⊢
      tauto
    refine ⟨{ s with
      devices := rest
      vfs := { s.vfs with
        inodes := update s.vfs.inodes (s.device dev).inode none } },
      devs.eraseP (s.named name), ?_, holds, ?_, ?_⟩
    · simp [vfsFreeInode, live]
    · intro other there
      obtain ⟨mem', apart⟩ := gone other there
      have other_inode : (s.device other).inode ≠ (s.device dev).inode :=
        fun same => apart (inv.distinct other mem' dev mem same)
      simpa [update_of_ne other_inode] using inv.alive other mem'
    · intro first there second there' same
      exact inv.distinct first (gone first there).1 second (gone second there').1 same

variable {ops}

/-- Opening a device path keeps the registry. -/
theorem openPath (inv : DevfsInv s devs) {allocDentry : Bool} {allocFile : Option ℕ}
    (stepped : devfsStep ops s (.openPath allocDentry allocFile name flags) = some s') :
    DevfsInv s' devs := by
  obtain ⟨⟨result, t⟩, opened, rfl⟩ := map_eq_some_iff.mp stepped
  obtain ⟨dentry, _, opened⟩ := bind_eq_some_iff.mp opened
  obtain ⟨⟨outcome, vfs⟩, ran, same⟩ := map_eq_some_iff.mp opened
  cases same
  exact inv.of_alive fun dev mem => vfsOpen_alive ran (inv.alive dev mem)

/-- Closing keeps the registry if it does not free a registered inode. -/
theorem close (inv : DevfsInv s devs)
    (stepped : devfsStep ops s (.close fd) = some s') (good : NotLastClose s (.close fd)) :
    DevfsInv s' devs := by
  obtain ⟨⟨result, vfs⟩, closed, rfl⟩ := map_eq_some_iff.mp stepped
  refine inv.of_alive fun dev mem freed => ?_
  obtain ⟨file, object, node, opened, found, small, inode, live, last⟩ :=
    (vfsClose_inodes closed _ (inv.alive dev mem)).mp freed
  have apart := (noDevice_iff inv.listed _).mp
    (good file opened object found _ inode node live small last) dev mem
  simp at apart

theorem step (inv : DevfsInv s devs) (legal : DevfsLegal s call)
    (good : NotLastClose s call) (stepped : devfsStep ops s call = some s') :
    ∃ devs', DevfsInv s' devs' := by
  cases call with
  | register allocDev allocInode name major minor fops =>
    obtain ⟨t, devs', result, inv'⟩ := inv.register ops legal
    exact ⟨devs', mem_unique result stepped ▸ inv'⟩
  | openPath allocDentry allocFile name flags => exact ⟨devs, inv.openPath stepped⟩
  | close fd => exact ⟨devs, inv.close stepped good⟩
  | unregister name =>
    obtain ⟨t, devs', result, inv'⟩ := inv.unregister ops name
    exact ⟨devs', mem_unique result stepped ▸ inv'⟩

/-- A close that drops the last reference returns, with the inode freed. -/
theorem notLastClose (alive : LeavesAlive ops s call) : NotLastClose s call := by
  cases call with
  | register => trivial
  | openPath => trivial
  | unregister => trivial
  | close fd =>
    intro file opened object found inode inode_eq node live small last
    have opened : s.vfs.openFiles fd = some file := opened
    have found : s.vfs.files file = some object := found
    have inode_eq : object.inode = some inode := inode_eq
    have live : s.vfs.inodes inode = some node := live
    have zero : object.refCount - 1 = 0 := by omega
    have returns : ∃ r, vfsClose ops fd s.vfs = some r := by
      simp [vfsClose, opened, filePut, found, zero, putInode, inode_eq, inodePut, live]
    obtain ⟨⟨result, vfs⟩, closed⟩ := returns
    obtain ⟨devs, listed, alive⟩ := alive { s with vfs := vfs } (by simp [devfsStep, closed])
    refine (noDevice_iff listed _).mpr fun dev mem => decide_eq_false fun same => ?_
    subst same
    refine alive dev mem ((vfsClose_inodes closed _ ?_).mpr
      ⟨file, object, node, opened, found, small, inode_eq, live, last⟩)
    rw [live]
    simp

end DevfsInv

/-! ## Registered devices -/

/-- **Registered devices stay alive** exactly as long as no `vfs_close` drops the last
counted reference to a registered inode: from an empty device list, for every sequence of
calls with a sound `kmalloc` and for all drivers. -/
theorem devices_alive_iff (ops : κ → FileOperations κ ω) (s : Devfs κ ω)
    (calls : List (DevfsCall κ)) (empty : s.devices.head = none)
    (legal : Allowed (devfsStep ops) DevfsLegal s calls) :
    Allowed (devfsStep ops) (LeavesAlive ops) s calls ↔
      Allowed (devfsStep ops) NotLastClose s calls := by
  have start : ∃ devs, DevfsInv s devs :=
    ⟨[], empty, fun _ mem => absurd mem not_mem_nil, fun _ mem => absurd mem not_mem_nil⟩
  constructor
  · intro alive
    exact allowed_imp (fun _ => True) (fun _ _ _ leaves => DevfsInv.notLastClose leaves)
      (fun _ _ _ _ _ _ => trivial) calls s trivial alive
  intro good
  refine allowed_imp (fun s => ∃ devs, DevfsInv s devs) ?_ ?_ calls s start
    (allowed_and.mpr ⟨legal, good⟩)
  · rintro s call ⟨devs, inv⟩ ⟨legal, good⟩ s' stepped
    obtain ⟨devs', inv'⟩ := inv.step legal good stepped
    exact ⟨devs', inv'.listed, inv'.alive⟩
  · rintro s call s' ⟨devs, inv⟩ ⟨legal, good⟩ stepped
    exact inv.step legal good stepped

/-! ### One device -/

/-- A driver without operations. -/
def noOps : Unit → FileOperations Unit Unit := fun _ => ⟨none, none, none, none⟩

/-- No device and no file. -/
def devfsEmpty : Devfs Unit Unit where
  initialized := true
  devices := ⟨none, fun _ => none⟩
  device := fun _ => ⟨[], 0, 0, 0⟩
  vfs := ⟨true, fun _ => none, fun _ => none, fun _ => none, ()⟩

/-- The name `tty`. -/
def ttyName : List (BitVec 8) := [0x74, 0x74, 0x79]

/-- `devfs_register_device` of `tty`, with the device at 0x1000 and the inode at 0x2000. -/
def registerTty : DevfsCall Unit :=
  .register (some (pagePointer 0)) (some 0x2000) ttyName 4 0 ()

/-- A device is opened twice and closed once. -/
theorem devices_alive_shared :
    Allowed (devfsStep noOps) (LeavesAlive noOps) devfsEmpty
      [registerTty, .openPath true (some 0x3000) ttyName 0,
        .openPath true (some 0x4000) ttyName 0, .close ⟨0, by decide⟩] :=
  (devices_alive_iff noOps devfsEmpty _ rfl (by decide +kernel)).mpr (by decide +kernel)

/-- A device is opened and closed: its inode is freed, and the device cannot be opened
again. -/
theorem device_freed :
    Allowed (devfsStep noOps) DevfsLegal devfsEmpty
        [registerTty, .openPath true (some 0x3000) ttyName 0, .close ⟨0, by decide⟩] ∧
      ¬Allowed (devfsStep noOps) (LeavesAlive noOps) devfsEmpty
        [registerTty, .openPath true (some 0x3000) ttyName 0, .close ⟨0, by decide⟩] ∧
      exec (devfsStep noOps) devfsEmpty
        [registerTty, .openPath true (some 0x3000) ttyName 0, .close ⟨0, by decide⟩,
          .openPath true (some 0x3000) ttyName 0] = none := by
  refine ⟨by decide +kernel, fun alive => ?_, ?_⟩
  · have good := allowed_imp (fun _ => True) (fun _ _ _ leaves => DevfsInv.notLastClose leaves)
      (fun _ _ _ _ _ _ => trivial) _ _ trivial alive
    exact absurd good (by decide +kernel)
  · decide +kernel

end EduOS
