import SuperNova.Lib.Table
import SuperNova.Os.Kernel

/-!
# Previews and tokens of a task

The state of a task is replayed from its events; two of its tables are about approvals, one of previews
by transaction and one of tokens.

* `PreviewTables.fold`: what one event does to the two tables;
* `activePreviewIds`: the previews that still wait for an answer.
-/

namespace Context

open Os

/-- `PreviewTxState`, as far as the tables read it -/
structure PreviewTxState where
  txId : String
  previewId : String
  status : String

/-- `ApprovalTokenState`, as far as the tables read it -/
structure ApprovalTokenState where
  approvalTokenId : String
  txId : String
  status : String

structure PreviewTables where
  previewTxs : Table String PreviewTxState
  tokens : Table String ApprovalTokenState

def PreviewTables.initial : PreviewTables := ⟨Table.empty, Table.empty⟩

def stringField (value : Json) (key : String) : String := (value.strAt? key).getD ""

def PreviewTables.mark (s : PreviewTables) (txId status : String) : PreviewTables :=
  { s with previewTxs := s.previewTxs.modify txId fun tx => { tx with status := status } }

/-- one event, in `replay_task_context_state_from_events` -/
def PreviewTables.fold (s : PreviewTables) (event : Event) : PreviewTables :=
  match event.eventType with
  | "preview_tx_created" =>
    let txId := stringField event.data "tx_id"
    let previewId := stringField event.data "preview_id"
    if txId ≠ "" ∧ previewId ≠ "" then
      { s with previewTxs := s.previewTxs.insert txId ⟨txId, previewId, "created"⟩ }
    else s
  | "preview_tx_approved" =>
    match event.data.strAt? "tx_id" with
    | some txId => s.mark txId "approved"
    | none => s
  | "approval_token_issued" =>
    let tokenId := stringField event.data "approval_token_id"
    let txId := stringField event.data "tx_id"
    if tokenId ≠ "" then
      { s.mark txId "approved" with tokens := s.tokens.insert tokenId ⟨tokenId, txId, "active"⟩ }
    else s
  | "approval_token_consumed" | "approval_token_used" =>
    let tokenId := stringField event.data "approval_token_id"
    match s.tokens.get? tokenId with
    | some token =>
      { s.mark token.txId "applied" with
        tokens := s.tokens.modify tokenId fun token => { token with status := "consumed" } }
    | none => s
  | "preview_tx_closed" =>
    match event.data.strAt? "tx_id" with
    | some txId => s.mark txId ((event.data.strAt? "status").getD "closed")
    | none => s
  | _ => s

/-- the tables after the events of a log -/
def replayPreviews (events : List Event) : PreviewTables :=
  events.foldl PreviewTables.fold PreviewTables.initial

def activePreviewIds (s : PreviewTables) : List String :=
  (s.previewTxs.values.filter fun tx => tx.status == "created").map (·.previewId)

def activeApprovalTokenIds (s : PreviewTables) : List String :=
  (s.tokens.values.filter fun token => token.status == "active").map (·.approvalTokenId)

section
variable {s : PreviewTables} {event : Event} {txId status x : String}

theorem replayPreviews_concat (events : List Event) (event : Event) :
    replayPreviews (events ++ [event]) = (replayPreviews events).fold event := List.foldl_concat ..

theorem mark_get? : (s.mark txId status).previewTxs.get? x =
    if x = txId then (s.previewTxs.get? x).map fun tx => { tx with status := status }
    else s.previewTxs.get? x := Table.get?_modify

theorem mem_activePreviewIds : x ∈ activePreviewIds s ↔
    ∃ txId tx, s.previewTxs.get? txId = some tx ∧ tx.status = "created" ∧ tx.previewId = x := by
  simp only [activePreviewIds, List.mem_map, List.mem_filter, Table.mem_values, beq_iff_eq]
  constructor
  · rintro ⟨tx, ⟨⟨txId, htx⟩, hstatus⟩, rfl⟩
    exact ⟨txId, tx, htx, hstatus, rfl⟩
  · rintro ⟨txId, tx, htx, hstatus, rfl⟩
    exact ⟨tx, ⟨⟨txId, htx⟩, hstatus⟩, rfl⟩

end

end Context
