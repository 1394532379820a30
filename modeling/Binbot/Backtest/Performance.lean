import Binbot.Core.Events
import Mathlib.Algebra.BigOperators.Group.List.Basic
import Mathlib.Algebra.Order.Field.Rat
import Mathlib.Tactic.Linarith

/-!
# Performance analytics (`backtest/performance.py`)

The figures of the report that are sums, quotients and maxima of the equity curve and
of the trades.
-/
namespace Binbot

/-- A round trip of the simulator. -/
structure TradeRecord where
  symbol : Symbol
  /-- Direction of the opening leg. -/
  side : OrderSide
  entryTs : Timestamp
  exitTs : Timestamp
  quantity : ℤ
  /-- Net of commission. -/
  pnl : ℚ
  deriving DecidableEq

def TradeRecord.isWin (t : TradeRecord) : Bool := t.pnl > 0

structure PerformanceReport where
  totalReturnPct : ℚ
  maxDrawdownPct : ℚ
  maxDrawdownDurationBars : ℕ
  winRatePct : ℚ
  expectancy : ℚ
  /-- `none` for `inf`. -/
  profitFactor : Option ℚ
  numTrades : ℕ
  grossProfit : ℚ
  grossLoss : ℚ

namespace Performance

/-- `np.maximum.accumulate`. -/
def runningMax : List ℚ → List ℚ
  | [] => []
  | first :: rest => rest.scanl max first

/-- Each point's distance from the running maximum, as a fraction of it. -/
def drawdowns (equity : List ℚ) : List ℚ :=
  List.zipWith (fun point peak => (point - peak) / peak) equity (runningMax equity)

/-- The current stretch below the running maximum, and the longest so far. -/
def stretch (state : ℕ × ℕ) (below : Bool) : ℕ × ℕ :=
  if below then (state.1 + 1, max state.2 (state.1 + 1)) else (0, state.2)

/-- `_drawdown_series`: the series, its minimum, and the longest stretch in bars. -/
def drawdownSeries (equity : List ℚ) : List ℚ × ℚ × ℕ :=
  let series := drawdowns equity
  let below := List.zipWith (fun point peak => decide (point < peak)) equity (runningMax equity)
  (series, series.min?.getD 0, (below.foldl stretch (0, 0)).2)

def pnl (trades : List TradeRecord) : ℚ := (trades.map (·.pnl)).sum

/-- `a / b if b else 0.0`, with the number of trades for `b`. -/
def perTrade (a : ℚ) (trades : List TradeRecord) : ℚ :=
  if trades = [] then 0 else a / trades.length

/-- `compute_performance_report`. The volatility and duration statistics read nothing
that the rest reads, and are left out. -/
def computePerformanceReport (equityCurve : List ℚ) (trades : List TradeRecord) :
    Except String PerformanceReport :=
  match equityCurve with
  | [] | [_] => .error "equity_curve needs at least 2 points to compute returns"
  | first :: second :: rest =>
    let last := (second :: rest).getLast (List.cons_ne_nil _ _)
    let drawdown := drawdownSeries equityCurve
    let wins := trades.filter (·.isWin)
    let losses := trades.filter fun t => !t.isWin
    let grossProfit := pnl wins
    let grossLoss := |pnl losses|
    let pWin := perTrade wins.length trades
    let pLoss := 1 - pWin
    .ok
      { totalReturnPct := (last / first - 1) * 100
        maxDrawdownPct := |drawdown.2.1| * 100
        maxDrawdownDurationBars := drawdown.2.2
        winRatePct := pWin * 100
        expectancy := pWin * perTrade grossProfit wins - pLoss * perTrade grossLoss losses
        profitFactor :=
          if grossLoss > 0 then some (grossProfit / grossLoss)
          else if grossProfit > 0 then none else some 0
        numTrades := trades.length
        grossProfit := grossProfit
        grossLoss := grossLoss }

/-! ### The totals of a report -/

/-- The wins and the losses together are all trades. -/
theorem pnl_wins_add_losses (trades : List TradeRecord) :
    pnl (trades.filter (·.isWin)) + pnl (trades.filter fun t => !t.isWin) = pnl trades := by
  induction trades with
  | nil => simp [pnl]
  | cons trade rest ih =>
    simp only [pnl] at ih ⊢
    cases won : trade.isWin with
    | true =>
      simp only [List.filter_cons, won, Bool.not_true, Bool.false_eq_true, if_true, if_false,
        List.map_cons, List.sum_cons]
      linarith
    | false =>
      simp only [List.filter_cons, won, Bool.not_false, Bool.false_eq_true, if_true, if_false,
        List.map_cons, List.sum_cons]
      linarith

theorem pnl_losses_nonpos (trades : List TradeRecord) :
    pnl (trades.filter fun t => !t.isWin) ≤ 0 := by
  induction trades with
  | nil => simp [pnl]
  | cons trade rest ih =>
    rw [pnl] at ih ⊢
    cases won : trade.isWin with
    | true => simpa [won] using ih
    | false =>
      have lost : trade.pnl ≤ 0 := by simpa [TradeRecord.isWin] using won
      simp only [List.filter_cons, won, Bool.not_false, if_true, List.map_cons, List.sum_cons]
      linarith

theorem perTrade_mul_length (amount : ℚ) (trades : List TradeRecord)
    (none : trades = [] → amount = 0) : perTrade amount trades * trades.length = amount := by
  rw [perTrade]
  split
  next empty => simp [empty, none empty]
  next some =>
    have size : (trades.length : ℚ) ≠ 0 := by simpa using some
    exact div_mul_cancel₀ amount size

/-- The gross figures differ by the profit of all trades, and so does the expectancy times
the number of trades. -/
theorem report_totals {equityCurve : List ℚ} {trades : List TradeRecord}
    {report : PerformanceReport}
    (computed : computePerformanceReport equityCurve trades = .ok report) :
    report.grossProfit - report.grossLoss = pnl trades ∧
      report.expectancy * report.numTrades = pnl trades := by
  match equityCurve with
  | [] | [_] => simp [computePerformanceReport] at computed
  | first :: second :: rest =>
    simp only [computePerformanceReport, Except.ok.injEq] at computed
    subst computed
    have split := pnl_wins_add_losses trades
    have gross : pnl (trades.filter (·.isWin)) - |pnl (trades.filter fun t => !t.isWin)| =
        pnl trades := by
      rw [abs_of_nonpos (pnl_losses_nonpos trades)]
      linarith
    refine ⟨gross, ?_⟩
    -- each average counts as often as its trades
    have wins := perTrade_mul_length (pnl (trades.filter (·.isWin))) (trades.filter (·.isWin))
      (fun none => by simp [none, pnl])
    have losses := perTrade_mul_length |pnl (trades.filter fun t => !t.isWin)|
      (trades.filter fun t => !t.isWin) (fun none => by simp [none, pnl])
    have share := perTrade_mul_length (trades.filter (·.isWin)).length trades
      (fun none => by simp [none])
    have count : ((trades.length : ℕ) : ℚ) = (trades.filter (·.isWin)).length +
        (trades.filter fun t => !t.isWin).length := by
      exact_mod_cast List.length_eq_length_filter_add TradeRecord.isWin
    rw [sub_mul, mul_right_comm, share, mul_right_comm (1 - _), sub_mul, one_mul, share,
      show (trades.length : ℚ) - (trades.filter (·.isWin)).length =
        (trades.filter fun t => !t.isWin).length by linarith]
    linarith

end Performance

end Binbot
