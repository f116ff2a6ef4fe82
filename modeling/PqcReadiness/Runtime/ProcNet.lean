import PqcReadiness.Lib.Codec
import PqcReadiness.Lib.Convert
import PqcReadiness.Lib.Lenient
import PqcReadiness.Lib.IpAddress
import PqcReadiness.Report

/-!
# Text from `/proc`

The live scan reads text that the kernel and the scanned processes write.  Every place where
such text can make Python raise something else than the `OSError` that is handled there is a
`Conversion`: a file that is no UTF-8, an address word that `struct.pack` refuses, a version
number that `int` refuses, a path with a NUL that `os.stat` refuses, a line of `maps` without
fields, a file that is cut off within the bytes that identify it as ELF.

`check` is such a place.  A strict scan, which is the program, raises there; a lenient scan goes
on as if what does not convert could not be read.  Both log what they come to.

The second half of the file reads the tables of `/proc/<pid>/net`.
-/

namespace PqcReadiness.Runtime

open PqcReadiness.Lib PqcReadiness.Lib.Bytes

/-! ## Conversions -/

/-- What a scan can raise. -/
inductive Fault where
  | unicodeDecodeError
  | structError
  | valueError
  | indexError
  deriving DecidableEq

/-- `b"\x7fELF"`. -/
def elfMagic : Bytes := 0x7F :: encodeAscii "ELF"

/-- Something that the scan converts. -/
inductive Conversion where
  /-- A file, to text. -/
  | text (data : Bytes)
  /-- A word of an address, by `struct.pack("=I", word)`. -/
  | word (value : ℤ)
  /-- The numbers of a version, by `_version_tuple`. -/
  | version (numbers : String)
  /-- A path, by `os.stat`. -/
  | path (name : String)
  /-- A line of `maps`, by `line.split(None, 5)[-1]`. -/
  | mapsLine (line : List Char)
  /-- The class and the byte order of an ELF file, by `ident[4]` and `ident[5]`. -/
  | elf (data : Bytes)

/-- Whether the conversion succeeds. -/
def Conversion.converts : Conversion → Bool
  | .text data => (decodeUtf8 data).isSome
  | .word value => 0 ≤ value ∧ value < 2 ^ 32
  | .version numbers => ((digitRuns numbers.toList).take 3).all fun run => run.length ≤ intMaxStrDigits
  | .path name => '\x00' ∉ name.toList
  | .mapsLine line => fields 5 line ≠ []
  | .elf data => data.take 4 = elfMagic → 6 ≤ data.length

/-- What a conversion that fails raises. -/
def Conversion.fault : Conversion → Fault
  | .text _ => .unicodeDecodeError
  | .word _ => .structError
  | .version _ => .valueError
  | .path _ => .valueError
  | .mapsLine _ => .indexError
  | .elf _ => .indexError

/-- The program, or its lenient counterpart. -/
inductive Mode where
  | strict
  | lenient
  deriving DecidableEq

/-- A scan that logs what it converts. -/
abbrev Scanner := Gen Fault Conversion

/-- Convert. -/
def check (mode : Mode) (conversion : Conversion) : Scanner Unit := do
  Gen.yield conversion
  raiseIf (mode = .strict ∧ ¬ conversion.converts) conversion.fault

/-! ## Files -/

/-- How a read fails: `PermissionError`, or another `OSError`. -/
inductive OsError where
  | permission
  | other
  deriving DecidableEq

/-- The bytes of a file, or how reading them fails. -/
abbrev File := Except OsError Bytes

/-- `path.read_text()`. -/
def readText (mode : Mode) (file : File) : Scanner (Except OsError String) :=
  match file with
  | .error e => return .error e
  | .ok data => do
      check mode (.text data)
      match decodeUtf8 data with
      | some text => return .ok (String.ofList (universalNewlines text.toList))
      | none => return .error .permission

/-! ## Sockets -/

/-- The tables of `/proc/<pid>/net`. -/
inductive NetTable where
  | tcp
  | tcp6
  | udp
  | udp6
  deriving DecidableEq

/-- The protocol of a table. -/
def NetTable.protocol : NetTable → Transport
  | .tcp => .tcp
  | .tcp6 => .tcp
  | .udp => .udp
  | .udp6 => .udp

/-- The family of an address. -/
inductive InetFamily where
  | ipv4
  | ipv6
  deriving DecidableEq

/-- A listening socket. -/
structure Socket where
  protocol : Transport
  family : InetFamily
  address : String
  port : ℤ
  inode : ℤ
  deriving DecidableEq

/-- `_TCP_LISTEN` or `_UDP_UNCONNECTED`. -/
def wantedState : Transport → String
  | .tcp => "0A"
  | .udp => "07"

/-- The parts of eight characters of an address. -/
def addressWords : ℕ → List Char → List (List Char)
  | _, [] => []
  | 0, _ => []
  | turns + 1, c :: rest => (c :: rest).take 8 :: addressWords turns ((c :: rest).drop 8)

/-- `struct.pack("=I", word)`. -/
def packWord (order : ByteOrder) (word : ℤ) : Option Bytes :=
  if 0 ≤ word ∧ word < 2 ^ 32 then some (ofNat order 4 word.toNat) else none

/-- The 16-bit groups of an address. -/
def hextets : Bytes → List ℕ
  | high :: low :: rest => (high.toNat * 256 + low.toNat) :: hextets rest
  | _ => []

/-- The text of the groups from index `i` on, with a run of zeros from `start` on of the given
length. -/
def inetGroups (start length : ℕ) : ℕ → List ℕ → String
  | _, [] => ""
  | i, group :: rest =>
      if start ≤ i ∧ i < start + length then
        (if i = start then ":" else "") ++ inetGroups start length (i + 1) rest
      else
        (if i ≠ 0 then ":" else "") ++ String.ofList (Nat.toDigits 16 group) ++
          inetGroups start length (i + 1) rest

/-- `socket.inet_ntop(socket.AF_INET6, raw)`: the longest run of two zero groups or more is left
out, and an address that embeds an IPv4 address ends with that in dotted form. -/
def inetNtop6 (raw : Bytes) : String :=
  let groups := hextets raw
  let run := IpAddress.longestZeros groups
  let (start, length) := if 2 ≤ run.2 then run else (8, 0)
  if start = 0 ∧ (length = 6 ∨ (length = 5 ∧ groups[5]? = some 0xFFFF)) then
    inetGroups start length 0 (groups.take 6) ++ ":" ++
      IpAddress.quadText ((raw.drop 12).map UInt8.toNat)
  else
    inetGroups start length 0 groups ++ if start + length = 8 ∧ length ≠ 0 then ":" else ""

/-- The address and the port of an entry such as `0100007F:0016`; none is `ValueError`. -/
def decodeProcNetAddress (mode : Mode) (order : ByteOrder) (hexaddr : String) :
    Scanner (Option (InetFamily × String × ℤ)) :=
  match splitChars ':' hexaddr.toList with
  | [addr, port] =>
      match (addressWords addr.length addr).mapM intOfHex with
      | none => return none
      | some words => do
          words.forM fun word => check mode (.word word)
          match words.mapM (packWord order), intOfHex port with
          | some parts, some port =>
              let raw := parts.flatten
              if raw.length = 4 then
                return some (.ipv4, IpAddress.quadText (raw.map UInt8.toNat), port)
              else if raw.length = 16 then
                return some (.ipv6, inetNtop6 raw, port)
              else return none
          | _, _ => return none
  | _ => return none

/-- A row of a table: the socket, if it is in the wanted state. -/
def parseProcNetRow (mode : Mode) (order : ByteOrder) (protocol : Transport) (line : String) :
    Scanner (Option Socket) :=
  match words line with
  | _ :: localAddress :: remoteAddress :: state :: _ :: _ :: _ :: _ :: _ :: inode :: _ =>
      if state = wantedState protocol then do
        let bound ← decodeProcNetAddress mode order localAddress
        match bound with
        | none => return none
        | some (family, address, port) => do
            let remote ← decodeProcNetAddress mode order remoteAddress
            match remote, intOfChars inode.toList with
            | some (_, _, rport), some inode =>
                if port = 0 ∨ inode = 0 ∨ (protocol = .udp ∧ rport ≠ 0) then return none
                else return some ⟨protocol, family, address, port, inode⟩
            | _, _ => return none
      else return none
  | _ => return none

/-- `parse_proc_net`. -/
def parseProcNet (mode : Mode) (order : ByteOrder) (text : String) (protocol : Transport) :
    Scanner (List Socket) :=
  ((splitLines text).drop 1).foldlM (fun out line => do
    let socket ← parseProcNetRow mode order protocol line
    return out ++ socket.toList) []

/-- The inode of a row, if it is an established connection. -/
def establishedInode (line : String) : Option ℤ :=
  match words line with
  | _ :: _ :: _ :: state :: _ :: _ :: _ :: _ :: _ :: inode :: _ =>
      if state = "01" then (intOfChars inode.toList).filter (· ≠ 0) else none
  | _ => none

/-- `parse_established_inodes`: a malformed row is skipped, so that it always returns. -/
def parseEstablishedInodes (text : String) : List ℤ :=
  (((splitLines text).drop 1).filterMap establishedInode).dedup

end PqcReadiness.Runtime
