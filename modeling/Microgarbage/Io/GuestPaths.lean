import Mathlib.Data.List.DropRight
import Microgarbage.Io.Descriptors
import Microgarbage.Lib.Bytes
import Microgarbage.Lib.PathWalk

/-!
# Guest paths on the host

Two kinds of calls make a host path of a guest's: the file calls through the mount table, the audio
calls by putting it behind the root that they were given. What the path names is up to the host,
which has separators of its own and its own rule for where a path starts.
-/

namespace Microgarbage.Io

open Lib

def slash : Byte := 0x2F
def backslash : Byte := 0x5C
def dot : Byte := 0x2E
def colon : Byte := 0x3A

/-! ## Hosts -/

inductive HostOs where
  | posix
  | windows
  deriving DecidableEq

/-- The trees of directories: a POSIX host has one, Windows one for each drive and for each share
of a server. -/
inductive HostVolume where
  | root
  | drive (letter : Byte)
  | share
  deriving DecidableEq

/-- The server and the share are names that no step up leaves. -/
def HostVolume.floor : HostVolume → Nat
  | .share => 2
  | _ => 0

structure Location where
  volume : HostVolume
  dir : List (List Byte)
  deriving DecidableEq

def Location.top (l : Location) : Location := ⟨l.volume, l.dir.take l.volume.floor⟩

def Location.walk (l : Location) (steps : List (PathStep (List Byte))) : Location :=
  ⟨l.volume, walkPath l.volume.floor l.dir steps⟩

structure HostSystem where
  os : HostOs
  cwd : Location
  /-- The working directory of each drive. -/
  driveCwd : Byte → List (List Byte)

def isLetter (c : Byte) : Bool := (0x41 ≤ c && c ≤ 0x5A) || (0x61 ≤ c && c ≤ 0x7A)

namespace HostSystem

variable (host : HostSystem)

def isSep (c : Byte) : Bool :=
  match host.os with
  | .posix => c == slash
  | .windows => c == slash || c == backslash

/-- Where a path starts, and what is left of it. -/
def anchor (s : List Byte) : Location × List Byte :=
  let start := if s.head?.any host.isSep then host.cwd.top else host.cwd
  match host.os, s with
  | .windows, c :: d :: s' =>
    if host.isSep c && host.isSep d then (⟨.share, []⟩, s')
    else if isLetter c && d == colon then
      (⟨.drive c, if s'.head?.any host.isSep then [] else host.driveCwd c⟩, s')
    else (start, s)
  | _, _ => (start, s)

def toStep (name : List Byte) : Option (PathStep (List Byte)) :=
  if name = [] ∨ name = [dot] then none
  else if name = [dot, dot] then some .up
  else some (.down name)

/-- The steps of a text: its components without the empty ones and `.`. -/
def steps (s : List Byte) : List (PathStep (List Byte)) := (s.splitOnP host.isSep).filterMap toStep

/-- What a path names. -/
def locate (s : List Byte) : Location := (host.anchor s).1.walk (host.steps (host.anchor s).2)

/-- The path begins as the root does, and from there it never leaves the root's directory. -/
def Inside (root path : List Byte) : Prop :=
  (host.anchor path).1 = (host.anchor root).1 ∧
    ∃ l, host.steps (host.anchor path).2 = host.steps (host.anchor root).2 ++ l ∧
      ∀ l', l' <+: l → (host.locate root).dir <+: ((host.locate root).walk l').dir

theorem inside_locate {host : HostSystem} {root path : List Byte} (h : host.Inside root path) :
    (host.locate path).volume = (host.locate root).volume ∧
      (host.locate root).dir <+: (host.locate path).dir := by
  obtain ⟨hstart, l, hsteps, hstays⟩ := h
  have hpath : host.locate path = (host.locate root).walk l := by
    unfold locate Location.walk
    rw [hstart, hsteps, walkPath_append]
  rw [hpath]
  exact ⟨rfl, hstays l List.prefix_rfl⟩

end HostSystem

/-! ## The file calls -/

def vmEperm : Int := 1
def mountNameMax : Nat := 15

/-- A directory of the host, under the text it was mounted with, or a trashfs volume. -/
inductive MountKind where
  | host (root : List Byte) (nonempty : root ≠ [])
  | trashfs

structure Mount where
  name : List Byte
  kind : MountKind

/-- `copy_and_strip_trailing_slashes`; one character is kept. -/
def copyAndStripTrailingSlashes : List Byte → List Byte
  | [] => []
  | c :: s => c :: s.rdropWhile fun d => d == slash || d == backslash

/-- `copy_guest_path`: `cap` characters are left, the next one is at `pos`. -/
def copyGuestPath (read : Nat → Option Byte) : Nat → Nat → Except Int (List Byte)
  | 0, _ => .error (-vmEnametoolong)
  | cap + 1, pos =>
    match read pos with
    | none => .error (-vmEfault)
    | some b => if b = 0 then .ok [] else (copyGuestPath read cap (pos + 1)).map (b :: ·)

abbrev MountTable := Fin vmHostFsMaxMounts → Option Mount

def findMount (mounts : MountTable) (name : List Byte) : Option Mount :=
  (List.finRange vmHostFsMaxMounts).findSome? fun i => (mounts i).filter (·.name = name)

/-- The mount of a path `/<name>/<rel>`, and the path within it. -/
def splitMount (mounts : MountTable) : List Byte → Except Int (Mount × List Byte)
  | [] => .error (-vmEnoent)
  | c :: raw =>
    if c ≠ slash then .error (-vmEnoent)
    else
      let name := raw.takeWhile (· != slash)
      if name = [] ∨ mountNameMax < name.length then .error (-vmEnoent)
      else
        match findMount mounts name with
        | none => .error (-vmEnoent)
        | some m =>
          let rel := raw.dropWhile (· != slash)
          .ok (m, if rel = [] then [slash] else rel)

/-- `..` behind a slash, or in front. -/
def escapes (rel : List Byte) : Bool :=
  decide ([slash, dot, dot] <:+: rel) || rel == [dot, dot] || [dot, dot, slash].isPrefixOf rel

/-- A resolved path; one of the host comes with the configured root, if there is one. -/
inductive GuestPath where
  | host (root : Option (List Byte)) (path : List Byte)
  | trashfs (path : List Byte)

/-- `resolve_guest_path`, for a buffer of `VM_HOST_FS_MAX_PATH` bytes. -/
def resolveGuestPath (mounts : MountTable) (read : Nat → Option Byte) : Except Int GuestPath := do
  let raw ← copyGuestPath read (vmHostFsMaxPath - 1) 0
  let (m, rel) ← splitMount mounts raw
  match m.kind with
  | .host root _ =>
    let stored := copyAndStripTrailingSlashes root
    if escapes rel then .error (-vmEperm)
    else if vmHostFsMaxPath < stored.length + rel.length + 1 then .error (-vmEnametoolong)
    else .ok (.host (some root) (stored ++ rel))
  | .trashfs =>
    if vmHostFsMaxPath < rel.length + 1 then .error (-vmEnametoolong) else .ok (.trashfs rel)

/-! ## The audio calls -/

/-- `copy_guest_str`: stops at the end of the string, of the buffer or of the memory. -/
def copyGuestStr (read : Nat → Option Byte) : Nat → Nat → List Byte
  | 0, _ => []
  | cap + 1, pos =>
    match read pos with
    | none => []
    | some b => if b = 0 then [] else b :: copyGuestStr read cap (pos + 1)

/-- `/host/` -/
def hostPrefix : List Byte := [0x2F, 0x68, 0x6F, 0x73, 0x74, 0x2F]

/-- `/td0/` -/
def tapePrefix : List Byte := [0x2F, 0x74, 0x64, 0x30, 0x2F]

/-- `td0:` -/
def tapeName : List Byte := [0x74, 0x64, 0x30, 0x3A]

/-- `td0:/` -/
def tapeNative : List Byte := tapeName ++ [slash]

/-- What the audio calls are installed with. -/
structure AudioFiles where
  root : Option (List Byte)
  /-- The size of the staging buffer, if there is one. -/
  staging : Option Nat
  /-- The service's file reader takes paths that begin with `td0:/` to the trashfs. -/
  tape : Bool

/-- `snprintf(.., 512, "%s/%s", root, rest)` -/
def joinPath (root rest : List Byte) : List Byte := (root ++ slash :: rest).take 511

/-- What follows a prefix. -/
def afterPrefix (front s : List Byte) : Option (List Byte) :=
  if front.isPrefixOf s then some (s.drop front.length) else none

/-- `handle_load_wav` up to the `fopen`. -/
def handleLoadWav (files : AudioFiles) (read : Nat → Option Byte) : Option GuestPath :=
  match files.root, files.staging with
  | some root, some _ =>
    (afterPrefix hostPrefix (copyGuestStr read 255 0)).map fun rest =>
      .host (some root) (joinPath root rest)
  | _, _ => none

/-- `handle_stream_wav` up to the file reader's `open`, which takes the path for one of the host
unless it knows the tape. -/
def handleStreamWav (files : AudioFiles) (read : Nat → Option Byte) : Option GuestPath :=
  match files.staging with
  | none => none
  | some cap =>
    let gpath := copyGuestStr read 255 0
    let native : Option (List Byte) :=
      match afterPrefix hostPrefix gpath with
      | some rest => files.root.map fun root => joinPath root rest
      | none => (afterPrefix tapePrefix gpath).map fun rest => (tapeNative ++ rest).take 511
    native.bind fun path =>
      if cap < path.length + 1 then none
      else if files.tape && tapeNative.isPrefixOf path then some (.trashfs (path.drop 4))
      else some (.host files.root path)

/-! ## Every call -/

/-- The calls that open what they make of a guest's path; the other file calls refuse a path of the
host. -/
inductive PathCall where
  | file
  | loadWav
  | streamWav

structure GuestFiles where
  mounts : MountTable
  audio : AudioFiles

/-- The host's path that the call opens, and the configured root. -/
def hostPath (files : GuestFiles) (read : Nat → Option Byte) (call : PathCall) :
    Option (Option (List Byte) × List Byte) :=
  let resolved : Option GuestPath :=
    match call with
    | .file => (resolveGuestPath files.mounts read).toOption
    | .loadWav => handleLoadWav files.audio read
    | .streamWav => handleStreamWav files.audio read
  match resolved with
  | some (.host root path) => some (root, path)
  | _ => none

/-! ## Where paths start -/

namespace HostSystem

variable (host : HostSystem)

theorem isSep_slash : host.isSep slash = true := by
  unfold isSep
  split <;> rfl

theorem steps_append (s r : List Byte) :
    host.steps (s ++ slash :: r) = host.steps s ++ host.steps r := by
  unfold steps
  rw [List.splitOnP_append_cons _ _ host.isSep_slash, List.filterMap_append]

theorem steps_sep {c : Byte} (hc : host.isSep c = true) (r : List Byte) :
    host.steps (c :: r) = host.steps r := by
  have hempty : toStep [] = none := if_pos (.inl rfl)
  unfold steps
  rw [List.splitOnP_cons_eq_if_modifyHead, if_pos hc, List.filterMap_cons_none hempty]

theorem anchor_append (s r : List Byte) :
    host.steps (host.anchor (s ++ slash :: r)).2 =
      host.steps (host.anchor s).2 ++ host.steps r := by
  cases hos : host.os with
  | posix =>
    have hwhole : ∀ s, (host.anchor s).2 = s := fun s => by
      unfold anchor
      rw [hos]
    rw [hwhole, hwhole, steps_append]
  | windows =>
    have hshort : ∀ s, s.length < 2 → (host.anchor s).2 = s := by
      intro s hs
      unfold anchor
      match s with
      | [] => rw [hos]
      | [c] => rw [hos]
      | c :: d :: s => exact absurd hs (Nat.not_lt.mpr (Nat.le_add_left 2 s.length))
    have hlong : ∀ c d s', (host.anchor (c :: d :: s')).2 =
        if host.isSep c && host.isSep d || isLetter c && d == colon then s' else c :: d :: s' := by
      intro c d s'
      unfold anchor
      rw [hos]
      dsimp only
      cases host.isSep c && host.isSep d <;> cases isLetter c && d == colon <;> rfl
    have hsep := host.isSep_slash
    match s with
    | [] =>
      rw [hshort [] (by decide), List.nil_append]
      cases r with
      | nil => rw [hshort [slash] (by decide), ← steps_append, List.nil_append]
      | cons e r =>
        rw [hlong, hsep, Bool.true_and, show (isLetter slash) = false from rfl, Bool.false_and,
          Bool.or_false]
        split
        · next he =>
          rw [host.steps_sep he]
          rfl
        · rw [← steps_append, List.nil_append]
    | [c] =>
      rw [hshort [c] (by simp), List.singleton_append, hlong, hsep,
        show (slash == colon) = false from rfl, Bool.and_true, Bool.and_false, Bool.or_false]
      split
      · next hc =>
        rw [host.steps_sep hc]
        rfl
      · rw [← steps_append, List.singleton_append]
    | c :: d :: s =>
      rw [List.cons_append, List.cons_append, hlong, hlong]
      split
      · exact host.steps_append s r
      · exact host.steps_append (c :: d :: s) r

theorem inside_iff {root path : List Byte} :
    host.Inside root path ↔ (host.anchor path).1 = (host.anchor root).1 ∧
      ∃ l, host.steps (host.anchor path).2 = host.steps (host.anchor root).2 ++ l ∧
        ((host.locate root).dir.length ≤ (host.locate root).volume.floor ∨
          climbs 0 l = false) := by
  have hwalk : ∀ l, (∀ l', l' <+: l →
      (host.locate root).dir <+: ((host.locate root).walk l').dir) ↔
        ((host.locate root).dir.length ≤ (host.locate root).volume.floor ∨
          climbs 0 l = false) := by
    intro l
    have h : (∀ l', l' <+: l → (host.locate root).dir <+:
        walkPath (host.locate root).volume.floor ((host.locate root).dir ++ []) l') ↔
          ((host.locate root).dir.length ≤ (host.locate root).volume.floor ∨
            climbs 0 l = false) := walk_below_iff
    rw [List.append_nil] at h
    exact h
  unfold Inside
  simp only [hwalk]

end HostSystem

/-! ## Which guest paths stay inside -/

section Confinement

variable (host : HostSystem)

/-- The steps are the root's and then some that do not climb above it, or the root is at the top of
its tree. -/
def Under (root : List Byte) (l : List (PathStep (List Byte))) : Prop :=
  ∃ l', l = host.steps (host.anchor root).2 ++ l' ∧
    ((host.locate root).dir.length ≤ (host.locate root).volume.floor ∨ climbs 0 l' = false)

/-- What a guest path comes to behind the text of the root: the text still starts where the root
does, and the guest's steps stay under the root. -/
def StaysUnder (root stored rel : List Byte) : Prop :=
  (host.anchor (stored ++ slash :: rel)).1 = (host.anchor root).1 ∧
    Under host root (host.steps (host.anchor stored).2 ++ host.steps rel)

/-- The same for `joinPath`, which has room for 511 characters. -/
def JoinStaysUnder (root rest : List Byte) : Prop :=
  if root.length ≤ 510 then StaysUnder host root root (rest.take (510 - root.length))
  else host.Inside root (root.take 511)

/-- The guest's part of the path stays under the root, and a stream from the tape goes to a reader
that knows it, or the root begins the path that the host takes it for. -/
def Confined (files : GuestFiles) (read : Nat → Option Byte) : PathCall → Prop
  | .file => ∀ raw m root h rel, copyGuestPath read (vmHostFsMaxPath - 1) 0 = .ok raw →
      splitMount files.mounts raw = .ok (m, slash :: rel) → m.kind = .host root h →
      escapes (slash :: rel) = false →
      (copyAndStripTrailingSlashes root).length + (rel.length + 1) + 1 ≤ vmHostFsMaxPath →
      StaysUnder host root (copyAndStripTrailingSlashes root) rel
  | .loadWav => ∀ root rest, files.audio.root = some root → files.audio.staging ≠ none →
      afterPrefix hostPrefix (copyGuestStr read 255 0) = some rest → JoinStaysUnder host root rest
  | .streamWav => ∀ cap, files.audio.staging = some cap →
      match afterPrefix hostPrefix (copyGuestStr read 255 0) with
      | some rest => ∀ root, files.audio.root = some root → (joinPath root rest).length < cap →
          (files.audio.tape = true → tapeNative.isPrefixOf (joinPath root rest) = false) →
          JoinStaysUnder host root rest
      | none => ∀ rest, afterPrefix tapePrefix (copyGuestStr read 255 0) = some rest →
          (tapeNative ++ rest).length < cap → files.audio.tape = false →
          ∃ root, files.audio.root = some root ∧ StaysUnder host root tapeName rest

variable {host}

theorem stays_iff {root stored rel : List Byte} :
    host.Inside root (stored ++ slash :: rel) ↔ StaysUnder host root stored rel := by
  rw [HostSystem.inside_iff, HostSystem.anchor_append]
  rfl

theorem join_iff {root rest : List Byte} :
    host.Inside root (joinPath root rest) ↔ JoinStaysUnder host root rest := by
  unfold JoinStaysUnder joinPath
  split
  · next hle =>
    have htake : (root ++ slash :: rest).take 511 =
        root ++ slash :: rest.take (510 - root.length) := by
      rw [List.take_append, List.take_of_length_le (by omega),
        show 511 - root.length = (510 - root.length) + 1 by omega, List.take_succ_cons]
    rw [htake, stays_iff]
  · next hle =>
    rw [List.take_append_of_le_length (by omega)]

theorem splitMount_rel {mounts : MountTable} {raw rel : List Byte} {m : Mount}
    (h : splitMount mounts raw = .ok (m, rel)) : ∃ r, rel = slash :: r := by
  unfold splitMount at h
  split at h
  · cases h
  · next c raw =>
    split at h
    · cases h
    dsimp only at h
    split at h
    · cases h
    split at h
    · cases h
    cases h
    split
    · exact ⟨[], rfl⟩
    · next hne =>
      obtain ⟨d, r, hr⟩ := List.exists_cons_of_ne_nil hne
      have hd := List.head_dropWhile_not (· != slash) hne
      simp only [hr, List.head_cons, bne_eq_false_iff_eq] at hd
      exact ⟨r, hd ▸ hr⟩

theorem except_bind_ok {ε α β : Type} {x : Except ε α} {f : α → Except ε β} {b : β} :
    x >>= f = .ok b ↔ ∃ a, x = .ok a ∧ f a = .ok b := by
  cases x with
  | error e => exact ⟨nofun, fun ⟨_, h, _⟩ => nomatch h⟩
  | ok a => exact ⟨fun h => ⟨a, rfl, h⟩, fun ⟨_, ha, h⟩ => by cases ha; exact h⟩

variable {read : Nat → Option Byte}

theorem resolve_host {mounts : MountTable} {root : Option (List Byte)} {path : List Byte} :
    resolveGuestPath mounts read = .ok (.host root path) ↔
      ∃ raw m r h rel, copyGuestPath read (vmHostFsMaxPath - 1) 0 = .ok raw ∧
        splitMount mounts raw = .ok (m, slash :: rel) ∧ m.kind = .host r h ∧
        escapes (slash :: rel) = false ∧
        (copyAndStripTrailingSlashes r).length + (rel.length + 1) + 1 ≤ vmHostFsMaxPath ∧
        root = some r ∧ path = copyAndStripTrailingSlashes r ++ slash :: rel := by
  constructor
  · intro h
    unfold resolveGuestPath at h
    obtain ⟨raw, hraw, h⟩ := except_bind_ok.mp h
    obtain ⟨⟨m, rel⟩, hsplit, h⟩ := except_bind_ok.mp h
    obtain ⟨r, rfl⟩ := splitMount_rel hsplit
    dsimp only at h
    split at h
    · next root' hne hkind =>
      split at h
      · cases h
      · next hesc =>
        split at h
        · cases h
        · next hfits =>
          cases h
          exact ⟨raw, m, root', hne, r, hraw, hsplit, hkind, by simpa using hesc,
            Nat.le_of_not_lt hfits, rfl, rfl⟩
    · split at h <;> cases h
  · rintro ⟨raw, m, r, h, rel, hraw, hsplit, hkind, hesc, hfits, rfl, rfl⟩
    unfold resolveGuestPath
    refine except_bind_ok.mpr ⟨raw, hraw, except_bind_ok.mpr ⟨_, hsplit, ?_⟩⟩
    dsimp only
    rw [hkind]
    dsimp only
    rw [hesc, if_neg Bool.false_ne_true]
    exact if_neg (Nat.not_lt.mpr hfits)

theorem loadWav_host {files : AudioFiles} {root : Option (List Byte)} {path : List Byte} :
    handleLoadWav files read = some (.host root path) ↔
      ∃ r rest, files.root = some r ∧ files.staging ≠ none ∧
        afterPrefix hostPrefix (copyGuestStr read 255 0) = some rest ∧ root = some r ∧
        path = joinPath r rest := by
  unfold handleLoadWav
  constructor
  · intro h
    split at h
    · next r _ hroot hstaging =>
      obtain ⟨rest, hrest, h⟩ := Option.map_eq_some_iff.mp h
      cases h
      exact ⟨r, rest, hroot, by rw [hstaging]; nofun, hrest, rfl, rfl⟩
    · cases h
  · rintro ⟨r, rest, hroot, hstaging, hrest, rfl, rfl⟩
    obtain ⟨cap, hcap⟩ := Option.ne_none_iff_exists'.mp hstaging
    rw [hroot, hcap, hrest]
    rfl

/-- The native path that `handle_stream_wav` stages. -/
def streamPath (files : AudioFiles) (read : Nat → Option Byte) : Option (List Byte) :=
  match afterPrefix hostPrefix (copyGuestStr read 255 0) with
  | some rest => files.root.map fun root => joinPath root rest
  | none => (afterPrefix tapePrefix (copyGuestStr read 255 0)).map fun rest =>
    (tapeNative ++ rest).take 511

theorem streamWav_host {files : AudioFiles} {root : Option (List Byte)} {path : List Byte} :
    handleStreamWav files read = some (.host root path) ↔
      ∃ cap, files.staging = some cap ∧ root = files.root ∧ streamPath files read = some path ∧
        path.length < cap ∧ (files.tape = true → tapeNative.isPrefixOf path = false) := by
  unfold handleStreamWav
  cases hstaging : files.staging with
  | none => exact ⟨nofun, fun ⟨_, h, _⟩ => nomatch h⟩
  | some cap =>
    change (streamPath files read).bind _ = _ ↔ _
    rw [Option.bind_eq_some_iff]
    constructor
    · rintro ⟨path', hpath, h⟩
      split at h
      · cases h
      · next hcap =>
        split at h
        · cases h
        · next htape =>
          cases h
          refine ⟨cap, rfl, rfl, hpath, by omega, fun ht => ?_⟩
          rw [ht, Bool.true_and] at htape
          exact Bool.eq_false_iff.mpr htape
    · rintro ⟨cap', hcap', rfl, hpath, hlt, htape⟩
      cases hcap'
      refine ⟨path, hpath, ?_⟩
      rw [if_neg (by omega), if_neg]
      rintro h
      rw [Bool.and_eq_true] at h
      rw [htape h.1] at h
      cases h.2

theorem length_copyGuestStr (read : Nat → Option Byte) (cap pos : Nat) :
    (copyGuestStr read cap pos).length ≤ cap := by
  induction cap generalizing pos with
  | zero => exact Nat.le_refl 0
  | succ cap ih =>
    unfold copyGuestStr
    split
    · exact Nat.zero_le _
    · split
      · exact Nat.zero_le _
      · exact Nat.succ_le_succ (ih (pos + 1))

theorem streamWav_confined {files : GuestFiles} :
    (∀ root path, handleStreamWav files.audio read = some (.host root path) →
      ∃ r, root = some r ∧ host.Inside r path) ↔ Confined host files read .streamWav := by
  have hshort : ∀ rest, afterPrefix tapePrefix (copyGuestStr read 255 0) = some rest →
      (tapeNative ++ rest).take 511 = tapeName ++ slash :: rest := by
    intro rest hrest
    have hlen := length_copyGuestStr read 255 0
    unfold afterPrefix at hrest
    split at hrest
    · cases hrest
      rw [List.take_of_length_le, show tapeNative = tapeName ++ [slash] from rfl,
        List.append_assoc]
      · rfl
      · rw [List.length_append, List.length_drop]
        simp [tapeNative, tapeName]
        omega
    · cases hrest
  have htapePath : ∀ rest, tapeNative.isPrefixOf (tapeName ++ slash :: rest) = true :=
    fun rest => rfl
  constructor
  · intro hall cap hcap
    split
    · next rest hrest =>
      intro root hroot hlt htape
      have hstream : streamPath files.audio read = some (joinPath root rest) := by
        unfold streamPath
        rw [hrest, hroot]
        rfl
      obtain ⟨r, hr, hin⟩ := hall (some root) _
        (streamWav_host.mpr ⟨cap, hcap, hroot.symm, hstream, hlt, htape⟩)
      cases hr
      exact join_iff.mp hin
    · next hnone =>
      intro rest hrest hlt htape
      have hstream : streamPath files.audio read = some (tapeName ++ slash :: rest) := by
        unfold streamPath
        rw [hnone, hrest, ← hshort rest hrest]
        rfl
      obtain ⟨r, hr, hin⟩ := hall files.audio.root _
        (streamWav_host.mpr ⟨cap, hcap, rfl, hstream, hlt, fun h => by rw [htape] at h; cases h⟩)
      exact ⟨r, hr, stays_iff.mp hin⟩
  · intro hconf root path hstream
    obtain ⟨cap, hcap, rfl, hpath, hlt, htape⟩ := streamWav_host.mp hstream
    have hcall := hconf cap hcap
    unfold streamPath at hpath
    split at hpath
    · next rest hrest =>
      obtain ⟨r, hroot, rfl⟩ := Option.map_eq_some_iff.mp hpath
      rw [hrest] at hcall
      exact ⟨r, hroot, join_iff.mpr (hcall r hroot hlt htape)⟩
    · next hnone =>
      obtain ⟨rest, hrest, rfl⟩ := Option.map_eq_some_iff.mp hpath
      rw [hnone] at hcall
      rw [hshort rest hrest] at hlt htape ⊢
      have hoff : files.audio.tape = false := by
        cases ht : files.audio.tape with
        | false => rfl
        | true => exact absurd (htapePath rest) (by rw [htape ht]; exact Bool.false_ne_true)
      obtain ⟨r, hr, hstays⟩ := hcall rest hrest hlt hoff
      exact ⟨r, hr, stays_iff.mpr hstays⟩

/-- A call opens only what is inside the root exactly when the guest's part of the path is confined
by the host's own reading of it. -/
theorem hostPath_inside_iff {host : HostSystem} {files : GuestFiles}
    {read : Nat → Option Byte} {call : PathCall} :
    (∀ root path, hostPath files read call = some (root, path) →
      ∃ r, root = some r ∧ host.Inside r path) ↔ Confined host files read call := by
  have hpath : ∀ root path, hostPath files read call = some (root, path) ↔
      (match call with
        | .file => (resolveGuestPath files.mounts read).toOption
        | .loadWav => handleLoadWav files.audio read
        | .streamWav => handleStreamWav files.audio read) = some (.host root path) := by
    intro root path
    unfold hostPath
    dsimp only
    split
    · next root' path' h =>
      rw [h]
      simp
    · next h =>
      exact ⟨nofun, fun h' => absurd h' (h _ _)⟩
  simp only [hpath]
  cases call with
  | file =>
    have hok : ∀ root path, (resolveGuestPath files.mounts read).toOption =
        some (.host root path) ↔ resolveGuestPath files.mounts read = .ok (.host root path) := by
      intro root path
      cases resolveGuestPath files.mounts read <;> simp [Except.toOption]
    simp only [hok]
    constructor
    · intro hall raw m root h rel hraw hsplit hkind hesc hfits
      obtain ⟨r, hr, hin⟩ := hall (some root) _
        (resolve_host.mpr ⟨raw, m, root, h, rel, hraw, hsplit, hkind, hesc, hfits, rfl, rfl⟩)
      cases hr
      exact stays_iff.mp hin
    · intro hconf root path hres
      obtain ⟨raw, m, r, h, rel, hraw, hsplit, hkind, hesc, hfits, rfl, rfl⟩ :=
        resolve_host.mp hres
      exact ⟨r, rfl, stays_iff.mpr (hconf raw m r h rel hraw hsplit hkind hesc hfits)⟩
  | loadWav =>
    constructor
    · intro hall root rest hroot hstaging hrest
      obtain ⟨r, hr, hin⟩ := hall (some root) _
        (loadWav_host.mpr ⟨root, rest, hroot, hstaging, hrest, rfl, rfl⟩)
      cases hr
      exact join_iff.mp hin
    · intro hconf root path hload
      obtain ⟨r, rest, hroot, hstaging, hrest, rfl, rfl⟩ := loadWav_host.mp hload
      exact ⟨r, rfl, join_iff.mpr (hconf r rest hroot hstaging hrest)⟩
  | streamWav => exact streamWav_confined

end Confinement

/-! ## Paths that leave -/

/-- A string in guest memory. -/
def guestText (s : List Byte) (i : Nat) : Option Byte := some (s.getD i 0)

/-- `./host` -/
def hostDir : List Byte := [0x2E, 0x2F, 0x68, 0x6F, 0x73, 0x74]

/-- `C:/h` -/
def driveDir : List Byte := [0x43, 0x3A, 0x2F, 0x68]

/-- A mount `h` of `root`, which the audio calls use as well. -/
def filesIn (root : List Byte) (h : root ≠ []) : GuestFiles :=
  ⟨fun _ => some ⟨[0x68], .host root h⟩, ⟨some root, some 1024, false⟩⟩

/-- `/host/../x` for the audio calls on any host, and `/h/\..\x` for the file calls on Windows. -/
theorem paths_leave :
    (¬∀ root path, hostPath (filesIn hostDir (by decide)) (guestText
        [0x2F, 0x68, 0x6F, 0x73, 0x74, 0x2F, 0x2E, 0x2E, 0x2F, 0x78]) .loadWav =
          some (root, path) →
      ∃ r, root = some r ∧
        HostSystem.Inside ⟨.posix, ⟨.root, [[0x61]]⟩, fun _ => []⟩ r path) ∧
    ¬∀ root path, hostPath (filesIn driveDir (by decide)) (guestText
        [0x2F, 0x68, 0x2F, 0x5C, 0x2E, 0x2E, 0x5C, 0x78]) .file = some (root, path) →
      ∃ r, root = some r ∧
        HostSystem.Inside ⟨.windows, ⟨.drive 0x43, []⟩, fun _ => []⟩ r path := by
  refine ⟨fun h => ?_, fun h => ?_⟩
  · obtain ⟨r, hr, hin⟩ := h (some hostDir) _ rfl
    cases hr
    exact absurd (HostSystem.inside_locate hin).2 (by decide)
  · obtain ⟨r, hr, hin⟩ := h (some driveDir) _ rfl
    cases hr
    exact absurd (HostSystem.inside_locate hin).2 (by decide)

end Microgarbage.Io
