import Lookout.Firewall
import Mathlib.Algebra.Order.Ring.Rat

/-!
`detect.py`: the counters of two polls become one window's measurements, and the rules judge
them. Python's floats are rational numbers here.
-/

namespace Lookout.Detect

open Lookout.Common Lookout.Dicts

/-- The differences behind a row. -/
structure Delta where
  packets : ℤ
  bytes : ℤ
  dropped : ℤ
  syn : ℤ
  fin : ℤ
  rst : ℤ
  icmp : ℤ
  deriving DecidableEq

structure Row where
  pps : ℚ
  mean_len : ℚ
  syn_ratio : ℚ
  syn_fin_ratio : ℚ
  icmp_ratio : ℚ
  port_spread : ℕ
  drop_ratio : ℚ
  deriving DecidableEq

/-- The counters of an entry, as a difference from nothing. -/
def counters (st : SrcState) : Delta where
  packets := st.packets
  bytes := st.bytes
  dropped := st.dropped
  syn := st.syn
  fin := st.fin
  rst := st.rst
  icmp := st.icmp

def Delta.sub (c d : Delta) : Delta where
  packets := c.packets - d.packets
  bytes := c.bytes - d.bytes
  dropped := c.dropped - d.dropped
  syn := c.syn - d.syn
  fin := c.fin - d.fin
  rst := c.rst - d.rst
  icmp := c.icmp - d.icmp

def Delta.add (c d : Delta) : Delta where
  packets := c.packets + d.packets
  bytes := c.bytes + d.bytes
  dropped := c.dropped + d.dropped
  syn := c.syn + d.syn
  fin := c.fin + d.fin
  rst := c.rst + d.rst
  icmp := c.icmp + d.icmp

/-- `dict.fromkeys(cur, 0)`. -/
def Delta.zero : Delta := ⟨0, 0, 0, 0, 0, 0, 0⟩

/-- What the entry is compared with: the old snapshot, or zeros when there is none or a smaller
count shows that the entry was deleted and recreated. -/
def baseline (old : Option SrcState) (cur : SrcState) : Delta :=
  match old with
  | none => .zero
  | some old => if cur.packets < old.packets then .zero else counters old

def delta (old : Option SrcState) (cur : SrcState) : Delta :=
  (counters cur).sub (baseline old cur)

/-- `bin(x).count("1")`. -/
def popcount (x : U64) : ℕ := (List.range 64).countP fun i => x.getLsbD i

def Row.of (d : Delta) (port_bitmap : U64) (secs : ℚ) : Row where
  pps := d.packets / secs
  mean_len := d.bytes / d.packets
  syn_ratio := d.syn / d.packets
  syn_fin_ratio := d.syn / (d.fin + d.rst + 1)
  icmp_ratio := d.icmp / d.packets
  port_spread := popcount port_bitmap
  drop_ratio := d.dropped / d.packets

/-- The row of a source, if it has one. -/
def measurements (old : Option SrcState) (cur : SrcState) (secs : ℚ) : Option Row :=
  let d := delta old cur
  if d.packets ≤ 0 then none else some (.of d cur.port_bitmap secs)

/-- `Window`: the states and the time of the last call. -/
structure Window where
  prev : Option (Dict Addr SrcState × ℕ)

def Window.init : Window := ⟨none⟩

def Window.update (win : Window) (states : Dict Addr SrcState) (now_ns : ℕ) :
    Dict Addr Row × Window :=
  let rows :=
    match win.prev with
    | none => ∅
    | some (prev, prev_ns) =>
      let secs : ℚ := ((now_ns : ℚ) - prev_ns) / 1000000000
      if secs < 1 / 1000 then ∅
      else states.filterMap fun ip cur => measurements (prev.lookup ip) cur secs
  (rows, ⟨some (states, now_ns)⟩)

/-! ### The rules -/

def FLOOD_PPS : ℚ := 8000
def SMALL_PKT : ℚ := 600
def SYN_RATIO : ℚ := 85 / 100
def SYN_FIN_RATIO : ℚ := 40
def SCAN_PORTS : ℕ := 24
def SCAN_PKT : ℚ := 100

/-- The first rule that matches names the reason. -/
def classify (row : Row) : Option String :=
  if row.pps > FLOOD_PPS ∧ row.mean_len < SMALL_PKT then some "volumetric flood"
  else if row.port_spread > SCAN_PORTS ∧ row.mean_len < SCAN_PKT then some "port scan"
  else if row.syn_ratio > SYN_RATIO ∧ row.syn_fin_ratio > SYN_FIN_RATIO then some "syn flood"
  else if row.icmp_ratio > 9 / 10 ∧ row.pps > FLOOD_PPS / 4 then some "icmp flood"
  else none

end Lookout.Detect
