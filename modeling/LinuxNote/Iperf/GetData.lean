import LinuxNote.Base.AwkNumber
import LinuxNote.Base.Loop
import LinuxNote.Base.ShellText
import Mathlib.Algebra.BigOperators.Group.Finset.Basic

/-!
# Average throughputs

`get_data.sh` reads the results of `iperf` for each length, number of threads and round, and
prints the average over the rounds, first of the senders and then of the receivers.  The
second loop adds the throughput of a receiver to the sum that the first loop has left behind.

Numbers are exact here, also where `awk` prints them into a shell variable.  A variable has
one number for each of its lines.

## Main definitions

* `getData` — what the script prints.
* `Results` — result files with one line for the sender and one for the receiver.
* `AveragesRight` — the averages of all senders and all receivers are printed.
* `LeftBehind` — when they are right in spite of the sum that is left behind.

## Main results

* `senderTazyu_eq` — the average of the senders.
* `receiverTazyu_eq` — what is printed for the receivers instead of their average.
* `averagesRight_iff` — **all averages are right exactly when** the receivers of all rounds
  but the last add up to the last average of the senders.
-/

namespace LinuxNote.Iperf

open AwkNumber ShellText

/-! ### Settings and result files -/

/-- What `common.sh` sets. -/
structure Settings where
  lenths : List (List Char)
  tazyus : List (List Char)
  round : ℕ
  guestTest : ℕ
  logDir : List Char
  round_pos : 0 < round

/-- The two ends of a connection. -/
inductive Role where
  | sender | receiver

/-- The word that `grep` looks for. -/
def Role.word : Role → List Char
  | .sender => "sender".toList
  | .receiver => "receiver".toList

section Script

variable (conf : Settings)

/-- `${LOG_RESULT}/iperf_result.txt`. -/
def logResult (lenth : List Char) (round : ℕ) (tazyu : List Char) : List Char :=
  conf.logDir ++ (if conf.guestTest = 0 then "/*/log-server/lenth-" else "/*/log-host/lenth-").toList ++
    lenth ++ "/round-".toList ++ CText.decimal round ++ "/tazyu-".toList ++ tazyu ++
    "/iperf_result.txt".toList

/-- The lines of one end: of the only thread, or of the sum of all threads. -/
def summary (role : Role) (tazyu : List Char) (lines : List (List Char)) : List (List Char) :=
  let found := lines.filter (occursIn role.word)
  if tazyu = "1".toList then found else found.filter (occursIn "SUM".toList)

/-- The word with the throughput; its unit is the next one. -/
def speedField (tazyu : List Char) : ℕ := if tazyu = "1".toList then 7 else 6

/-- `SENDER` and `RECEIVER`, line by line. -/
def speeds (role : Role) (tazyu : List Char) (lines : List (List Char)) : List (List Char) :=
  (summary role tazyu lines).map (field (speedField tazyu))

/-- `SENDER_UNIT` and `RECEIVER_UNIT`, line by line. -/
def units (role : Role) (tazyu : List Char) (lines : List (List Char)) : List (List Char) :=
  (summary role tazyu lines).map (field (speedField tazyu + 1))

/-- `echo "$SUM $SPEED" | awk '{print $1+$2}'`.  Only the first line is a sum: with several results
the others are printed as they are. -/
def awkAdd (sum : List ℚ) (speed : List (List Char)) : List ℚ :=
  sum.dropLast ++ (sum.getLastD 0 + numValue (speed.headD [])) :: speed.tail.map numValue

/-- `echo "$SUM $count" | awk '{print $1/$2}'`.  A line without a second word ends the
program, as a division by zero. -/
def awkDivide (sum : List ℚ) (count : ℕ) : List ℚ :=
  match sum with
  | [s] => if count = 0 then [] else [s / count]
  | _ => []

/-- What the script prints. -/
inductive Printed where
  | title (role : Role)
  | lenth (lenth : List Char)
  | result (sum : List ℚ) (unit : List (List Char))

/-- The variables of the script, and what it has printed. -/
structure Vars where
  count : ℕ
  senderSum : List ℚ
  senderUnit : List (List Char)
  receiverSum : List ℚ
  receiverUnit : List (List Char)
  out : List Printed

variable (cat : List Char → List (List Char))

/-- A round of the first loop, which adds the throughput of the round to the sum of the rounds
before it. -/
def senderRound (lenth tazyu : List Char) (v : Vars) (round : ℕ) : Vars :=
  let lines := cat (logResult conf lenth round tazyu)
  { v with
    senderUnit := units .sender tazyu lines
    count := v.count + 1
    senderSum := awkAdd v.senderSum (speeds .sender tazyu lines) }

/-- A number of threads in the first loop. -/
def senderTazyu (lenth : List Char) (v : Vars) (tazyu : List Char) : Vars :=
  let v := Loop.forEach (fun v i => senderRound conf cat lenth tazyu v (i + 1)) conf.round
    { v with count := 0, senderSum := [0] }
  let sum := awkDivide v.senderSum v.count
  { v with senderSum := sum, out := v.out ++ [.result sum v.senderUnit] }

/-- A length in the first loop. -/
def senderLenth (v : Vars) (lenth : List Char) : Vars :=
  conf.tazyus.foldl (senderTazyu conf cat lenth) { v with out := v.out ++ [.lenth lenth] }

/-- The first loop. -/
def getSender (v : Vars) : Vars :=
  conf.lenths.foldl (senderLenth conf cat) { v with out := v.out ++ [.title .sender] }

/-- A round of the second loop: the throughput is added to `SENDER_SUM`, which this loop never
changes, and not to the sum of the rounds before it. -/
def receiverRound (lenth tazyu : List Char) (v : Vars) (round : ℕ) : Vars :=
  let lines := cat (logResult conf lenth round tazyu)
  { v with
    receiverUnit := units .receiver tazyu lines
    count := v.count + 1
    receiverSum := awkAdd v.senderSum (speeds .receiver tazyu lines) }

/-- A number of threads in the second loop. -/
def receiverTazyu (lenth : List Char) (v : Vars) (tazyu : List Char) : Vars :=
  let v := Loop.forEach (fun v i => receiverRound conf cat lenth tazyu v (i + 1)) conf.round
    { v with count := 0, receiverSum := [0] }
  let sum := awkDivide v.receiverSum v.count
  { v with receiverSum := sum, out := v.out ++ [.result sum v.receiverUnit] }

/-- A length in the second loop. -/
def receiverLenth (v : Vars) (lenth : List Char) : Vars :=
  conf.tazyus.foldl (receiverTazyu conf cat lenth) { v with out := v.out ++ [.lenth lenth] }

/-- The second loop. -/
def getReceiver (v : Vars) : Vars :=
  conf.lenths.foldl (receiverLenth conf cat) { v with out := v.out ++ [.title .receiver] }

/-- What the script prints. -/
def getData : List Printed :=
  (getReceiver conf cat (getSender conf cat ⟨0, [], [], [], [], []⟩)).out

end Script

/-! ### Averages -/

/-- Result files with one line for each end, in one unit for all rounds, as a run that has gone
through leaves them. -/
structure Results (conf : Settings) where
  cat : List Char → List (List Char)
  speed : Role → List Char → List Char → ℕ → ℚ
  unit : Role → List Char → List Char → List Char
  summary_eq : ∀ role, ∀ lenth ∈ conf.lenths, ∀ tazyu ∈ conf.tazyus, ∀ i < conf.round,
    ∃ line, summary role tazyu (cat (logResult conf lenth (i + 1) tazyu)) = [line] ∧
      numValue (field (speedField tazyu) line) = speed role lenth tazyu (i + 1) ∧
      field (speedField tazyu + 1) line = unit role lenth tazyu

/-- The results of a length, given those of the numbers of threads. -/
def lenthTable (conf : Settings) (result : List Char → List Char → Printed) (lenth : List Char) :
    List Printed :=
  .lenth lenth :: conf.tazyus.map (result lenth)

section Averages

variable {conf : Settings} (r : Results conf)

/-- The average over the rounds. -/
def Results.mean (role : Role) (lenth tazyu : List Char) : ℚ :=
  (∑ i ∈ Finset.range conf.round, r.speed role lenth tazyu (i + 1)) / conf.round

/-- The averages of one end. -/
def Results.table (role : Role) : List Printed :=
  .title role :: conf.lenths.flatMap (lenthTable conf fun lenth tazyu =>
    .result [r.mean role lenth tazyu] [r.unit role lenth tazyu])

/-- The averages of the senders and of the receivers are printed, each over the rounds of its own
end. -/
def AveragesRight : Prop := getData conf r.cat = r.table .sender ++ r.table .receiver

/-- What the first loop leaves in `SENDER_SUM`. -/
def Results.lastMean : ℚ :=
  r.mean .sender (conf.lenths.getLastD []) (conf.tazyus.getLastD [])

/-- The receivers of all rounds but the last add up to what the first loop leaves behind, which
then happens to stand for them. -/
def LeftBehind : Prop :=
  ∀ lenth ∈ conf.lenths, ∀ tazyu ∈ conf.tazyus,
    ∑ i ∈ Finset.range (conf.round - 1), r.speed .receiver lenth tazyu (i + 1) = r.lastMean

end Averages

/-! ### The rounds -/

section Rounds

variable {conf : Settings} {r : Results conf} {lenth tazyu : List Char}

/-- The speed and the unit that a round finds. -/
theorem speeds_eq (hlenth : lenth ∈ conf.lenths) (htazyu : tazyu ∈ conf.tazyus) (role : Role)
    {i : ℕ} (hi : i < conf.round) (sum : ℚ) :
    awkAdd [sum] (speeds role tazyu (r.cat (logResult conf lenth (i + 1) tazyu))) =
        [sum + r.speed role lenth tazyu (i + 1)] ∧
      units role tazyu (r.cat (logResult conf lenth (i + 1) tazyu)) =
        [r.unit role lenth tazyu] := by
  obtain ⟨line, hline, hspeed, hunit⟩ := r.summary_eq role lenth hlenth tazyu htazyu i hi
  rw [speeds, units, hline, List.map_singleton, List.map_singleton, ← hspeed, ← hunit]
  exact ⟨rfl, rfl⟩

/-- The rounds of the first loop add up the throughputs of the senders. -/
theorem senderRounds (hlenth : lenth ∈ conf.lenths) (htazyu : tazyu ∈ conf.tazyus) (v : Vars) :
    let w := Loop.forEach (fun v i => senderRound conf r.cat lenth tazyu v (i + 1)) conf.round
      { v with count := 0, senderSum := [0] }
    w.count = conf.round ∧
      w.senderSum = [∑ i ∈ Finset.range conf.round, r.speed .sender lenth tazyu (i + 1)] ∧
      w.senderUnit = [r.unit .sender lenth tazyu] ∧ w.out = v.out := by
  have hinv := Loop.forEach_inv
    (f := fun v i => senderRound conf r.cat lenth tazyu v (i + 1))
    (s := { v with count := 0, senderSum := [0] }) (n := conf.round)
    (fun k w => w.count = k ∧
      w.senderSum = [∑ i ∈ Finset.range k, r.speed .sender lenth tazyu (i + 1)] ∧
      (0 < k → w.senderUnit = [r.unit .sender lenth tazyu]) ∧ w.out = v.out)
    ⟨rfl, by simp, fun h => absurd h (lt_irrefl 0), rfl⟩ (by
      rintro i hi w ⟨hcount, hsum, -, hout⟩
      obtain ⟨hadd, hunit⟩ := speeds_eq (r := r) hlenth htazyu .sender hi
        (∑ i ∈ Finset.range i, r.speed .sender lenth tazyu (i + 1))
      refine ⟨by rw [← hcount]; rfl, ?_, fun _ => hunit, hout⟩
      rw [Finset.sum_range_succ, ← hadd, ← hsum]
      rfl)
  obtain ⟨hcount, hsum, hunit, hout⟩ := hinv
  exact ⟨hcount, hsum, hunit conf.round_pos, hout⟩

/-- The rounds of the second loop end with the sum of the first loop and the last receiver. -/
theorem receiverRounds (hlenth : lenth ∈ conf.lenths) (htazyu : tazyu ∈ conf.tazyus) {v : Vars}
    {sum : ℚ} (hv : v.senderSum = [sum]) :
    let w := Loop.forEach (fun v i => receiverRound conf r.cat lenth tazyu v (i + 1)) conf.round
      { v with count := 0, receiverSum := [0] }
    w.count = conf.round ∧ w.senderSum = [sum] ∧
      w.receiverSum = [sum + r.speed .receiver lenth tazyu conf.round] ∧
      w.receiverUnit = [r.unit .receiver lenth tazyu] ∧ w.out = v.out := by
  have hinv := Loop.forEach_inv
    (f := fun v i => receiverRound conf r.cat lenth tazyu v (i + 1))
    (s := { v with count := 0, receiverSum := [0] }) (n := conf.round)
    (fun k w => w.count = k ∧ w.senderSum = [sum] ∧
      (0 < k → w.receiverSum = [sum + r.speed .receiver lenth tazyu k] ∧
        w.receiverUnit = [r.unit .receiver lenth tazyu]) ∧ w.out = v.out)
    ⟨rfl, hv, fun h => absurd h (lt_irrefl 0), rfl⟩ (by
      rintro i hi w ⟨hcount, hsum, -, hout⟩
      obtain ⟨hadd, hunit⟩ := speeds_eq (r := r) hlenth htazyu .receiver hi sum
      refine ⟨by rw [← hcount]; rfl, hsum, fun _ => ⟨?_, hunit⟩, hout⟩
      rw [← hadd, ← hsum]
      rfl)
  obtain ⟨hcount, hsum, hlast, hout⟩ := hinv
  exact ⟨hcount, hsum, (hlast conf.round_pos).1, (hlast conf.round_pos).2, hout⟩

theorem awkDivide_round (conf : Settings) (s : ℚ) : awkDivide [s] conf.round = [s / conf.round] := by
  rw [awkDivide, if_neg conf.round_pos.ne']

/-- **The average of the senders** is printed, and left behind in the variable that the second loop
adds to. -/
theorem senderTazyu_eq (hlenth : lenth ∈ conf.lenths) (htazyu : tazyu ∈ conf.tazyus) (v : Vars) :
    (senderTazyu conf r.cat lenth v tazyu).senderSum = [r.mean .sender lenth tazyu] ∧
      (senderTazyu conf r.cat lenth v tazyu).out =
        v.out ++ [.result [r.mean .sender lenth tazyu] [r.unit .sender lenth tazyu]] := by
  obtain ⟨hcount, hsum, hunit, hout⟩ := senderRounds (r := r) hlenth htazyu v
  unfold senderTazyu
  simp only [hcount, hsum, hunit, hout, awkDivide_round]
  exact ⟨rfl, rfl⟩

/-- **What is printed for the receivers**: the number that the first loop has left behind counts
for all rounds but the last, as each round overwrites the sum of the one before. -/
theorem receiverTazyu_eq (hlenth : lenth ∈ conf.lenths) (htazyu : tazyu ∈ conf.tazyus) {v : Vars}
    {sum : ℚ} (hv : v.senderSum = [sum]) :
    (receiverTazyu conf r.cat lenth v tazyu).senderSum = [sum] ∧
      (receiverTazyu conf r.cat lenth v tazyu).out =
        v.out ++ [.result [(sum + r.speed .receiver lenth tazyu conf.round) / conf.round]
          [r.unit .receiver lenth tazyu]] := by
  obtain ⟨hcount, hsum, hlast, hunit, hout⟩ := receiverRounds (r := r) hlenth htazyu hv
  unfold receiverTazyu
  simp only [hcount, hsum, hlast, hunit, hout, awkDivide_round]
  exact ⟨trivial, trivial⟩

end Rounds

/-! ### The two loops -/

section Loops

variable {conf : Settings} {r : Results conf}

/-- What the first loop prints for a length. -/
theorem senderLenth_out {lenth : List Char} (hlenth : lenth ∈ conf.lenths) (v : Vars) :
    (senderLenth conf r.cat v lenth).out = v.out ++ lenthTable conf (fun lenth tazyu =>
      .result [r.mean .sender lenth tazyu] [r.unit .sender lenth tazyu]) lenth := by
  have hloop := Loop.foldl_append (f := senderTazyu conf r.cat lenth) (fun _ => True) Vars.out
    (fun tazyu => [.result [r.mean .sender lenth tazyu] [r.unit .sender lenth tazyu]]) conf.tazyus
    (fun tazyu htazyu w _ => ⟨trivial, (senderTazyu_eq hlenth htazyu w).2⟩)
    (s := { v with out := v.out ++ [.lenth lenth] }) trivial
  rw [senderLenth, hloop.2, lenthTable, List.append_assoc, List.map_eq_flatMap]
  rfl

/-- What the first loop prints. -/
theorem getSender_out (v : Vars) : (getSender conf r.cat v).out = v.out ++ r.table .sender := by
  have hloop := Loop.foldl_append (f := senderLenth conf r.cat) (fun _ => True) Vars.out _
    conf.lenths (fun lenth hlenth w _ => ⟨trivial, senderLenth_out hlenth w⟩)
    (s := { v with out := v.out ++ [.title .sender] }) trivial
  rw [getSender, hloop.2, List.append_assoc]
  rfl

/-- What the first loop leaves behind. -/
theorem getSender_senderSum (hlenths : conf.lenths ≠ []) (htazyus : conf.tazyus ≠ []) (v : Vars) :
    (getSender conf r.cat v).senderSum = [r.lastMean] := by
  have hlast : ∀ {xs : List (List Char)}, xs ≠ [] → xs.getLastD [] ∈ xs := by
    intro xs hxs
    rw [List.getLastD_eq_getLast?, List.getLast?_eq_some_getLast hxs]
    exact List.getLast_mem hxs
  rw [getSender]
  obtain ⟨w, hw⟩ := Loop.foldl_eq_last (senderLenth conf r.cat) hlenths []
    { v with out := v.out ++ [.title .sender] }
  rw [hw, senderLenth]
  obtain ⟨u, hu⟩ := Loop.foldl_eq_last
    (senderTazyu conf r.cat (conf.lenths.getLastD [])) htazyus []
    { w with out := w.out ++ [.lenth (conf.lenths.getLastD [])] }
  rw [hu, (senderTazyu_eq (hlast hlenths) (hlast htazyus) u).1]
  rfl

/-- What is printed for a receiver. -/
def receiverResult (r : Results conf) (sum : ℚ) (lenth tazyu : List Char) : Printed :=
  .result [(sum + r.speed .receiver lenth tazyu conf.round) / conf.round]
    [r.unit .receiver lenth tazyu]

/-- What the second loop prints for a length. -/
theorem receiverLenth_eq {lenth : List Char} (hlenth : lenth ∈ conf.lenths) {v : Vars} {sum : ℚ}
    (hv : conf.tazyus ≠ [] → v.senderSum = [sum]) :
    (conf.tazyus ≠ [] → (receiverLenth conf r.cat v lenth).senderSum = [sum]) ∧
      (receiverLenth conf r.cat v lenth).out =
        v.out ++ lenthTable conf (receiverResult r sum) lenth := by
  have hloop := Loop.foldl_append (f := receiverTazyu conf r.cat lenth)
    (fun w => conf.tazyus ≠ [] → w.senderSum = [sum]) Vars.out
    (fun tazyu => [receiverResult r sum lenth tazyu]) conf.tazyus
    (fun tazyu htazyu w hw => by
      obtain ⟨hsum, hout⟩ := receiverTazyu_eq hlenth htazyu (hw (List.ne_nil_of_mem htazyu))
      exact ⟨fun _ => hsum, hout⟩)
    (s := { v with out := v.out ++ [.lenth lenth] }) hv
  refine ⟨hloop.1, ?_⟩
  rw [receiverLenth, hloop.2, lenthTable, List.append_assoc, List.map_eq_flatMap]
  rfl

/-- What the second loop prints. -/
theorem getReceiver_out {v : Vars} {sum : ℚ}
    (hv : conf.lenths ≠ [] → conf.tazyus ≠ [] → v.senderSum = [sum]) :
    (getReceiver conf r.cat v).out =
      v.out ++ .title .receiver :: conf.lenths.flatMap (lenthTable conf (receiverResult r sum)) := by
  have hloop := Loop.foldl_append (f := receiverLenth conf r.cat)
    (fun w => conf.lenths ≠ [] → conf.tazyus ≠ [] → w.senderSum = [sum]) Vars.out _ conf.lenths
    (fun lenth hlenth w hw => by
      obtain ⟨hsum, hout⟩ := receiverLenth_eq hlenth (hw (List.ne_nil_of_mem hlenth))
      exact ⟨fun _ => hsum, hout⟩)
    (s := { v with out := v.out ++ [.title .receiver] }) hv
  rw [getReceiver, hloop.2, List.append_assoc]
  rfl

/-- Two tables are the same when their results are. -/
theorem lenthTables_iff (f g : List Char → List Char → Printed) (lenths : List (List Char)) :
    lenths.flatMap (lenthTable conf f) = lenths.flatMap (lenthTable conf g) ↔
      ∀ lenth ∈ lenths, ∀ tazyu ∈ conf.tazyus, f lenth tazyu = g lenth tazyu := by
  induction lenths with
  | nil => simp
  | cons lenth lenths ih =>
    have hlength : (lenthTable conf f lenth).length = (lenthTable conf g lenth).length := by
      simp [lenthTable]
    have hfirst : lenthTable conf f lenth = lenthTable conf g lenth ↔
        ∀ tazyu ∈ conf.tazyus, f lenth tazyu = g lenth tazyu := by
      rw [lenthTable, lenthTable, List.cons_inj_right, List.map_inj_left]
    rw [List.flatMap_cons, List.flatMap_cons, List.forall_mem_cons, ← hfirst, ← ih]
    constructor
    · exact fun h => List.append_inj h hlength
    · rintro ⟨hhead, htail⟩
      rw [hhead, htail]

/-- What is printed for a receiver is right when its other rounds add up to the number. -/
theorem receiverResult_iff (sum : ℚ) (lenth tazyu : List Char) :
    receiverResult r sum lenth tazyu =
        .result [r.mean .receiver lenth tazyu] [r.unit .receiver lenth tazyu] ↔
      ∑ i ∈ Finset.range (conf.round - 1), r.speed .receiver lenth tazyu (i + 1) = sum := by
  have hround : (conf.round : ℚ) ≠ 0 := Nat.cast_ne_zero.mpr conf.round_pos.ne'
  have hlast : conf.round - 1 + 1 = conf.round := Nat.sub_add_cancel conf.round_pos
  have hsum := Finset.sum_range_succ (fun i => r.speed .receiver lenth tazyu (i + 1))
    (conf.round - 1)
  rw [hlast] at hsum
  rw [receiverResult, Results.mean, hsum, Printed.result.injEq, List.cons.injEq,
    div_left_inj' hround, add_left_inj]
  simp [eq_comm]

/-- The averages are right when every receiver is. -/
theorem averagesRight_iff_receivers :
    AveragesRight r ↔ ∀ lenth ∈ conf.lenths, ∀ tazyu ∈ conf.tazyus,
      receiverResult r r.lastMean lenth tazyu =
        .result [r.mean .receiver lenth tazyu] [r.unit .receiver lenth tazyu] := by
  have hprinted : getData conf r.cat = r.table .sender ++
      .title .receiver :: conf.lenths.flatMap (lenthTable conf (receiverResult r r.lastMean)) := by
    rw [getData, getReceiver_out fun hlenths htazyus => getSender_senderSum hlenths htazyus _,
      getSender_out]
    rfl
  rw [AveragesRight, hprinted, List.append_cancel_left_eq, Results.table, List.cons_inj_right,
    lenthTables_iff]

end Loops

/-- **All averages are right exactly when** the receivers of all rounds but the last add up to the
last average of the senders; with one round, when that average is zero. -/
theorem averagesRight_iff {conf : Settings} (r : Results conf) :
    AveragesRight r ↔ LeftBehind r := by
  rw [averagesRight_iff_receivers]
  exact forall₄_congr fun lenth _ tazyu _ => receiverResult_iff r.lastMean lenth tazyu

/-- The settings of `common.sh`. -/
def Settings.shipped : Settings := ⟨["32".toList], ["1".toList], 1, 0, "log".toList, by decide⟩

/-- The last lines that `iperf` prints. -/
def iperfLines : List (List Char) :=
  ["[  4]   0.00-20.00  sec  23.3 GBytes  10.0 Gbits/sec    0             sender",
    "[  4]   0.00-20.00  sec  23.3 GBytes  10.0 Gbits/sec                  receiver"].map
    String.toList

/-- One round with 10 Gbits/sec at both ends. -/
def evenResults : Results Settings.shipped where
  cat := fun _ => iperfLines
  speed := fun _ _ _ _ => 10
  unit := fun _ _ _ => "Gbits/sec".toList
  summary_eq := by
    intro role lenth _ tazyu htazyu i _
    obtain rfl : tazyu = "1".toList := List.mem_singleton.mp htazyu
    cases role with
    | sender => exact ⟨iperfLines.getD 0 [], by decide +kernel⟩
    | receiver => exact ⟨iperfLines.getD 1 [], by decide +kernel⟩

/-- With a single round, 20 Gbits/sec are printed for the receiver. -/
theorem not_averagesRight_even : ¬ AveragesRight evenResults := by
  intro h
  have hleft := (receiverResult_iff _ _ _).mp
    (averagesRight_iff_receivers.mp h "32".toList List.mem_cons_self "1".toList List.mem_cons_self)
  have hmean : evenResults.lastMean = 10 := by decide +kernel
  rw [hmean] at hleft
  exact absurd hleft (by decide +kernel)

end LinuxNote.Iperf
