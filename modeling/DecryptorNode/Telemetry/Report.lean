import DecryptorNode.Decimal.Shortest
import DecryptorNode.Telemetry.Activity

/-! Counters, gauges and histograms, summed up from activity. Values are floating point numbers
that happen to be whole. -/
namespace DecryptorNode.Telemetry

/-- A name with labels, the labels in order. -/
structure Series where
  name : String
  labels : List (String × String)
  deriving DecidableEq

def Series.text (s : Series) : String :=
  match s.labels with
  | [] => s.name
  | labels =>
    s.name ++ "\x7b" ++ ",".intercalate (labels.map fun (k, v) => k ++ "=" ++ v) ++ "\x7d"

/-- One measurement. Times are counted, but their length is not kept. -/
inductive Reading where
  | count : Series → Reading
  | level : Series → Nat → Reading
  | amount : Series → Nat → Reading
  | time : Series → Reading

def statusText (succeeded : Bool) : String := if succeeded then "ok" else "error"

def countedAndTimed (total duration : String) (labels : List (String × String)) : List Reading :=
  [.count ⟨total, labels⟩, .time ⟨duration, labels⟩]

def Activity.readings : Activity → List Reading
  | .request _ => []
  | .query repository method rows =>
    let labels := [("method", method), ("repository", repository),
      ("status", statusText rows.isSome)]
    countedAndTimed "node_repository_query_total" "node_repository_query_duration_seconds" labels
      ++ (rows.map fun n => .amount ⟨"node_repository_query_rows", labels⟩ n).toList
  | .logBatch succeeded blocks logs =>
    let labels := [("status", statusText succeeded)]
    countedAndTimed "node_blockchain_event_logs_batch_total"
        "node_blockchain_event_logs_batch_duration_seconds" labels
      ++ [.amount ⟨"node_blockchain_event_logs_batch_blocks", labels⟩ blocks,
        .amount ⟨"node_blockchain_event_logs_batch_logs", labels⟩ logs]
  | .addressQuery set succeeded =>
    countedAndTimed "node_blockchain_address_set_query_total"
      "node_blockchain_address_set_query_duration_seconds"
      [("set", set.label), ("status", statusText succeeded)]
  | .finalizedHead block => [.level ⟨"node_blockchain_finalized_head", []⟩ block]
  | .validated topic verdict =>
    countedAndTimed "node_network_message_validation_total"
      "node_network_message_validation_duration_seconds"
      [("decision", verdict), ("topic", topic)]
  | .handled topic succeeded =>
    [.count ⟨"node_network_message_handled_total",
      [("status", statusText succeeded), ("topic", topic)]⟩]
  | .applied kind succeeded =>
    countedAndTimed "node_sync_events_applied_total" "node_sync_event_apply_duration_seconds"
      [("kind", kind), ("status", statusText succeeded)]
  | .advanced cursor =>
    [.level ⟨"node_sync_cursor_next_block_number", []⟩ cursor.block,
      .level ⟨"node_sync_cursor_next_log_index", []⟩ cursor.index]
  | .reconciled outcome =>
    [.count ⟨"node_sync_bls_signature_verification_total", [("outcome", outcome)]⟩]

/-- How often something was measured, and the sum unless it is a time. -/
structure Histogram where
  count : Nat
  sum : Option Nat

structure Report where
  counters : List (Series × Nat)
  gauges : List (Series × Nat)
  histograms : List (Series × Histogram)

namespace Report

def empty : Report := ⟨[], [], []⟩

def upsert {α : Type} (key : Series) (change : Option α → α) :
    List (Series × α) → List (Series × α)
  | [] => [(key, change none)]
  | (k, a) :: rest =>
    if k = key then (k, change (some a)) :: rest else (k, a) :: upsert key change rest

def add (r : Report) : Reading → Report
  | .count s => { r with counters := upsert s (fun n => n.getD 0 + 1) r.counters }
  | .level s n => { r with gauges := upsert s (fun _ => Decimal.nearest n) r.gauges }
  | .amount s n =>
    let change (h : Option Histogram) : Histogram :=
      let h := h.getD ⟨0, some 0⟩
      ⟨h.count + 1, h.sum.map fun sum => Decimal.nearest (sum + Decimal.nearest n)⟩
    { r with histograms := upsert s change r.histograms }
  | .time s =>
    let change (h : Option Histogram) : Histogram := ⟨(h.elim 0 (·.count)) + 1, none⟩
    { r with histograms := upsert s change r.histograms }

def ofActivity (latestFirst : List Activity) : Report :=
  (latestFirst.reverse.flatMap Activity.readings).foldl add empty

end Report
end DecryptorNode.Telemetry
