import Mathlib.Data.Prod.Lex
import PqcReadiness.Lib.Loop
import PqcReadiness.Lib.Pathname

/-!
# Host paths

The path functions of `_platform.py`.  Under `--root` a file tree is scanned as if
it were the running system: every path is resolved inside the tree, and no link
of it may be followed on the scanning machine.

## Strategy

`resolve_in_root` is a `while` loop over a work list that link targets are pushed
onto.  A turn either follows a link, of which there are at most `max_links`, or
takes a component off the list; that orders the states (`resolveTurn_measure`), and
`resolveLoop` carries the order with the body.

`host_path` and `in_tree` go on after `ELOOP`.  They then return a path below
a name that is supposed not to exist, and what opening that path does is up to
the tree.
-/

namespace PqcReadiness.Platform

open PqcReadiness.Lib

/-! ## State -/

/-- The module's two prefixes.  Their setters strip trailing slashes. -/
structure Prefixes where
  /-- `HOST_PREFIX`. -/
  hostPrefix : String
  /-- `OFFLINE_ROOT`. -/
  offlineRoot : String
  hostPrefix_stripped : rstripChar '/' hostPrefix = hostPrefix
  offlineRoot_stripped : rstripChar '/' offlineRoot = offlineRoot

/-- `set_host_prefix(prefix)`. -/
def setHostPrefix (state : Prefixes) (text : String) : Prefixes :=
  { state with
    hostPrefix := rstripChar '/' text
    hostPrefix_stripped := rstripChar_idempotent '/' text }

/-- `set_offline_root(root)`. -/
def setOfflineRoot (state : Prefixes) (root : String) : Prefixes :=
  setHostPrefix
    { state with
      offlineRoot := rstripChar '/' root
      offlineRoot_stripped := rstripChar_idempotent '/' root } root

/-- The state the module starts in. -/
def live : Prefixes := ⟨"", "", rfl, rfl⟩

/-- The file systems below each prefix: what `os.path.islink`, `os.readlink` and
the kernel see under a root. -/
abbrev Trees := String → Tree

/-! ## `resolve_in_root` -/

/-- The error `resolve_in_root` raises. -/
inductive OSError where
  | eloop
deriving DecidableEq, Repr

/-- The variables of the loop. -/
structure ResolveState where
  pending : List String
  done : List String
  links : ℕ
deriving DecidableEq, Repr

/-- One turn of the loop. -/
def resolveTurn (links : Links) (maxLinks : ℕ) (state : ResolveState) :
    ResolveState ⊕ Except OSError (List String) :=
  match state.pending with
  | [] => .inr (.ok state.done)
  | part :: pending =>
      if part = "." then .inl { state with pending }
      -- `..` at the root stays at the root.
      else if part = ".." then .inl { state with pending, done := state.done.dropLast }
      else
        match links (state.done ++ [part]) with
        | some target =>
            if maxLinks < state.links + 1 then .inr (.error .eloop)
            else
              .inl
                { pending := components target ++ pending
                  -- An absolute target starts over at the root of the tree.
                  done := if startsWith "/" target then [] else state.done
                  links := state.links + 1 }
        | none => .inl { state with pending, done := state.done ++ [part] }

/-- Links still allowed, then components still pending. -/
def ResolveState.measure (maxLinks : ℕ) (state : ResolveState) : ℕ ×ₗ ℕ :=
  toLex (maxLinks - state.links, state.pending.length)

/-- Everything a turn can do. -/
theorem resolveTurn_cases (links : Links) (maxLinks : ℕ) (state : ResolveState) :
    (state.pending = [] ∧ resolveTurn links maxLinks state = .inr (.ok state.done)) ∨
      ∃ part pending, state.pending = part :: pending ∧
        ((part = "." ∧ resolveTurn links maxLinks state = .inl { state with pending }) ∨
          (part = ".." ∧ resolveTurn links maxLinks state =
            .inl { state with pending, done := state.done.dropLast }) ∨
          (IsName part ∧ links (state.done ++ [part]) = none ∧ resolveTurn links maxLinks state =
            .inl { state with pending, done := state.done ++ [part] }) ∨
          (IsName part ∧ ∃ target, links (state.done ++ [part]) = some target ∧
            ((maxLinks ≤ state.links ∧
                resolveTurn links maxLinks state = .inr (.error .eloop)) ∨
              (state.links < maxLinks ∧ resolveTurn links maxLinks state =
                .inl ⟨components target ++ pending, linkStart target state.done,
                  state.links + 1⟩)))) := by
  rw [resolveTurn]
  cases hpending : state.pending with
  | nil => exact .inl ⟨rfl, rfl⟩
  | cons part pending =>
      refine .inr ⟨part, pending, rfl, ?_⟩
      by_cases hdot : part = "."
      · exact .inl ⟨hdot, by simp [hdot]⟩
      by_cases hdots : part = ".."
      · exact .inr (.inl ⟨hdots, by simp [hdots]⟩)
      refine .inr (.inr ?_)
      cases hlink : links (state.done ++ [part]) with
      | none => exact .inl ⟨⟨hdot, hdots⟩, rfl, by simp [hdot, hdots, hlink]⟩
      | some target =>
          refine .inr ⟨⟨hdot, hdots⟩, target, rfl, ?_⟩
          by_cases hlimit : maxLinks ≤ state.links
          · exact .inl ⟨hlimit, by simp [hdot, hdots, hlink, Nat.lt_succ_of_le hlimit]⟩
          · have hbound : ¬ maxLinks < state.links + 1 := by omega
            exact .inr ⟨by omega, by simp [hdot, hdots, hlink, hbound, linkStart]⟩

/-- Either a component is taken off the list, or a link is followed. -/
theorem resolveTurn_measure {links : Links} {maxLinks : ℕ} {state next : ResolveState}
    (hturn : resolveTurn links maxLinks state = .inl next) :
    next.measure maxLinks < state.measure maxLinks := by
  rw [ResolveState.measure, ResolveState.measure, Prod.Lex.toLex_lt_toLex]
  rcases resolveTurn_cases links maxLinks state with ⟨-, h⟩ | ⟨part, pending, hpending, hpart⟩
  · exact absurd (hturn.symm.trans h) (by simp)
  · rcases hpart with ⟨-, h⟩ | ⟨-, h⟩ | ⟨-, -, h⟩ | ⟨-, target, -, ⟨-, h⟩ | ⟨hlimit, h⟩⟩ <;>
      rw [h] at hturn <;> cases hturn
    · exact .inr ⟨rfl, by simp [hpending]⟩
    · exact .inr ⟨rfl, by simp [hpending]⟩
    · exact .inr ⟨rfl, by simp [hpending]⟩
    · exact .inl (by simp only; omega)

/-- The loop of `resolve_in_root`. -/
def resolveLoop (links : Links) (maxLinks : ℕ) :
    Loop ResolveState (Except OSError (List String)) where
  turn := resolveTurn links maxLinks
  below := InvImage (· < ·) (ResolveState.measure maxLinks)
  wellFounded := InvImage.wf _ wellFounded_lt
  decreases := resolveTurn_measure

/-- `resolve_in_root(path, root, max_links)`. -/
def resolveInRoot (trees : Trees) (path root : String) (maxLinks : ℕ) : Except OSError String :=
  ((resolveLoop (trees root).links maxLinks).result ⟨components path, [], 0⟩).map pathText

/-- The default of `max_links`. -/
def defaultMaxLinks : ℕ := 40

/-! ## Host paths -/

/-- `_HOST_NAMESPACES`. -/
def hostNamespaces : List String :=
  ["/proc", "/sys", "/dev", "/etc", "/var/lib/dpkg", "/usr/share", "/usr/lib/os-release", "/usr/etc",
    "/usr/lib/modules", "/var/log/containers"]

/-- The name of `_LOOP_SINK`. -/
def loopSinkName : String := ".pqc-readiness-symlink-loop"

/-- `_LOOP_SINK`. -/
def loopSink : String := "/" ++ loopSinkName

/-- `p == pre or p.startswith(pre + "/")`. -/
def isBelow (pre p : String) : Bool := p == pre || startsWith (pre ++ "/") p

/-- `host_path(p)`. -/
def hostPath (trees : Trees) (state : Prefixes) (p : String) : PurePath :=
  if state.offlineRoot ≠ "" ∧ startsWith "/" p then
    match resolveInRoot trees p state.offlineRoot defaultMaxLinks with
    | .ok resolved => .ofText (state.offlineRoot ++ resolved)
    -- Nothing looks whether the tree has an entry of that name.
    | .error _ => .ofText (state.offlineRoot ++ loopSink ++ normpath p)
  else if state.hostPrefix ≠ "" ∧ hostNamespaces.any (isBelow · p) then
    .ofText (state.hostPrefix ++ p)
  else .ofText p

/-- `s[len(pre):] or "/"`. -/
def relativeTo (pre p : String) : String :=
  let rel := String.ofList (p.toList.drop pre.toList.length)
  if rel = "" then "/" else rel

/-- `in_tree(p)`. -/
def inTree (trees : Trees) (state : Prefixes) (p : String) : PurePath :=
  let pre := state.hostPrefix
  if pre = "" ∨ ¬ isBelow pre p then .ofText p
  else
    let rel := relativeTo pre p
    match resolveInRoot trees rel pre defaultMaxLinks with
    | .ok resolved => .ofText (pre ++ resolved)
    | .error _ => .ofText (pre ++ loopSink ++ normpath rel)

/-! ## `host_glob` -/

/-- What `host_glob` asks of the file system besides links. -/
structure Listing where
  /-- `os.listdir(path)`; `none` is an error. -/
  listdir : String → Option (List String)
  /-- `os.path.lexists(path)`. -/
  lexists : String → Bool
  /-- `glob.glob(pattern)`, used without a prefix. -/
  glob : String → List String

/-- The paths found so far, and the directories that were listed for them. -/
structure Globbed where
  found : List String := []
  listed : List String := []

/-- The entries below `base` that the pattern component `part` stands for. -/
def globBase (trees : Trees) (listing : Listing) (pre part base : String) : Globbed :=
  let child := rstripChar '/' base ++ "/"
  -- A component without wildcards is taken as it is; whether it exists is asked at the end.
  if !hasMagic part then { found := [child ++ part] }
  else
    match resolveInRoot trees base pre defaultMaxLinks with
    | .error _ => {}
    | .ok resolved =>
        match listing.listdir (pre ++ resolved) with
        | none => { listed := [pre ++ resolved] }
        | some names =>
            { found :=
                ((sortedBy id names).filter fun n =>
                  fnmatchcase n part && (startsWith "." part || !startsWith "." n)).map (child ++ ·)
              listed := [pre ++ resolved] }

/-- One component of the pattern, for every path found so far. -/
def globPart (trees : Trees) (listing : Listing) (pre : String) (state : Globbed) (part : String) :
    Globbed :=
  let nexts := state.found.map (globBase trees listing pre part)
  { found := nexts.flatMap (·.found), listed := state.listed ++ nexts.flatMap (·.listed) }

/-- `host_glob(pattern)`, with the directories it lists.  Without a prefix the
listing is left to `glob`, and no directories are recorded. -/
def hostGlob (trees : Trees) (listing : Listing) (state : Prefixes) (pattern : String) : Globbed :=
  let pre := state.hostPrefix
  if pre = "" then { found := sortedBy id (listing.glob pattern) }
  else
    let walked := (components pattern).foldl (globPart trees listing pre) { found := ["/"] }
    { walked with
      found := walked.found.filter fun p =>
        match resolveInRoot trees p pre defaultMaxLinks with
        | .ok resolved => listing.lexists (pre ++ resolved)
        | .error _ => false }

end PqcReadiness.Platform
