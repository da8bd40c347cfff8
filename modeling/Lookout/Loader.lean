import Lookout.Effects
import Lookout.Kernel
import Mathlib.Data.Nat.Digits.Defs
import Mathlib.Logic.Function.Basic

/-!
`loader.c`: loading the program, pinning its maps, attaching it.

A firewall may be running already. Its maps are pinned, and a load reuses them. What the kernel and
libbpf do is not part of the loader: it is a machine, and all that is asked of it is what they
document. Each step may fail. What is printed is left out.
-/

namespace Lookout.Loader

open Lookout.Effects Lookout.Effects.Prog Lookout.Common

/-! ### The command line -/

def isspace (c : Char) : Bool :=
  c = ' ' || c = '\t' || c = '\n' || c = '\x0b' || c = '\x0c' || c = '\r'

/-- `strtoull(s, NULL, 10)`. A value that does not fit comes out as the largest one; a minus sign
negates in 64 bits. -/
def strtoull (s : String) : U64 :=
  let magnitude (l : List Char) : ℕ := Nat.ofDigitChars 10 (l.takeWhile Char.isDigit) 0
  match s.toList.dropWhile isspace with
  | '-' :: l => if magnitude l < 2 ^ 64 then -BitVec.ofNat 64 (magnitude l) else BitVec.allOnes 64
  | '+' :: l =>
    if magnitude l < 2 ^ 64 then BitVec.ofNat 64 (magnitude l) else BitVec.allOnes 64
  | l => if magnitude l < 2 ^ 64 then BitVec.ofNat 64 (magnitude l) else BitVec.allOnes 64

/-- What `getopt` finds. -/
inductive Opt
  | i (optarg : String)
  | o (optarg : String)
  | m (optarg : String)
  | r (optarg : String)
  | b (optarg : String)
  | u
  | v
  | h
  | unknown

structure Settings where
  iface : Option String := none
  obj_path : String := "bpf/firewall.bpf.o"
  mode : String := "auto"
  cfg : FwConfig := Kernel.default_config
  do_unload : Bool := false

/-- One option; `-h` and an unknown one end the program with an exit code. `-v` only makes it print
more. -/
def Settings.opt (st : Settings) : Opt → Except ℕ Settings
  | .i optarg => .ok { st with iface := some optarg }
  | .o optarg => .ok { st with obj_path := optarg }
  | .m optarg => .ok { st with mode := optarg }
  | .r optarg => .ok { st with cfg := { st.cfg with rate_pps := strtoull optarg } }
  | .b optarg => .ok { st with cfg := { st.cfg with burst_pkts := strtoull optarg } }
  | .u => .ok { st with do_unload := true }
  | .v => .ok st
  | .h => .error 0
  | .unknown => .error 1

def getopts (opts : List Opt) : Except ℕ Settings := opts.foldlM Settings.opt {}

/-! ### The program -/

inductive Errno
  | EEXIST
  | other
  deriving DecidableEq

inductive AttachMode
  | DRV_MODE
  | SKB_MODE
  deriving DecidableEq

/-- A loaded object: the map behind its descriptor of `config`, and its program. -/
structure Object where
  config : ℕ
  prog : ℕ

inductive Op
  | geteuid
  | if_nametoindex (iface : String)
  | setrlimit
  | mkdir
  | open_file (path : String)
  -- the pin path of every map is set before
  | load
  | map_update_elem (map : ℕ) (cfg : FwConfig)
  | unlink (name : String)
  | pin (prog : ℕ) (name : String)
  | attach (ifindex prog : ℕ) (mode : AttachMode)
  | detach (ifindex : ℕ)
  | rmdir

/-- The answers. A call that can fail answers `true` when it does. -/
@[reducible] def Ans : Op → Type
  | .geteuid => ℕ
  | .if_nametoindex _ => ℕ
  | .mkdir => Option Errno
  | .load => Option Object
  | _ => Bool

abbrev syscalls : Sig := ⟨Op, Ans⟩

abbrev Sys := Prog syscalls

def PROG_NAME : String := "xdp_firewall"

def pinned : List String :=
  ["allowlist", "blocklist", "portrules", "srcstate", "stats", "config", PROG_NAME]

def unlink_all : List String → Sys Unit
  | [] => return ()
  | name :: names => do
    let _ ← op (S := syscalls) (.unlink name)
    unlink_all names

def unload (ifindex : ℕ) : Sys ℕ := do
  let _ ← op (S := syscalls) (.detach ifindex)
  unlink_all pinned
  let _ ← op (S := syscalls) .rmdir
  return 0

/-- The mode it ends up in, if any. -/
def attach (ifindex prog : ℕ) (mode : String) : Sys (Option String) := do
  let generic : Sys (Option String) := do
    let failed ← op (S := syscalls) (.attach ifindex prog .SKB_MODE)
    return (if failed then none else some "generic/SKB")
  if mode ≠ "skb" then do
    let failed ← op (S := syscalls) (.attach ifindex prog .DRV_MODE)
    if !failed then return some "native/DRV"
    else if mode = "native" then return none
    else generic
  else generic

/-- `main`, once the arguments are checked and the program is not asked to unload. -/
def load (st : Settings) (ifindex : ℕ) : Sys ℕ := do
  let _ ← op (S := syscalls) .setrlimit
  let err ← op (S := syscalls) .mkdir
  if err = some .other then return 1
  else do
    let failed ← op (S := syscalls) (.open_file st.obj_path)
    if failed then return 1
    else do
      match ← op (S := syscalls) .load with
      | none => return 1
      | some obj => do
        let failed ← op (S := syscalls) (.map_update_elem obj.config st.cfg)
        if failed then return 1
        else do
          let _ ← op (S := syscalls) (.unlink PROG_NAME)
          let _ ← op (S := syscalls) (.pin obj.prog PROG_NAME)
          match ← attach ifindex obj.prog st.mode with
          | none => return 1
          | some _ => return 0

/-- The exit code. -/
def main (opts : List Opt) : Sys ℕ :=
  match getopts opts with
  | .error code => return code
  | .ok st =>
    match st.iface with
    | none => return 1
    | some iface =>
      if st.mode ≠ "auto" ∧ st.mode ≠ "native" ∧ st.mode ≠ "skb" then return 1
      else do
        let euid ← op (S := syscalls) .geteuid
        if euid ≠ 0 then return 1
        else do
          let ifindex ← op (S := syscalls) (.if_nametoindex iface)
          if ifindex = 0 then return 1
          else if st.do_unload then unload ifindex
          else load st ifindex

end Lookout.Loader
