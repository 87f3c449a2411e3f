import DecryptorNode.Store.Work

/-! The stored position of synchronisation, a single row. -/
namespace DecryptorNode.Store.Progress

open Chain (Cursor)

def rowId : Int := 1

def label : String := TableName.progress.label

def ofRow (row : ProgressRow) : Except StoreError Cursor := do
  let block ← unsigned "next_block_number" row.block
  return ⟨block, ← unsigned "next_log_index" row.index⟩

def toRow (cursor : Cursor) : Except StoreError ProgressRow := do
  let block ← signed64 "next_block_number" cursor.block
  return ⟨block, ← signed64 "next_log_index" cursor.index⟩

/-- The stored position without a record of the query. -/
def read : Statement (Option Cursor) := do
  let tables ← Statement.reading .progress
  match tables.progress.find? rowId with
  | none => return none
  | some row => some <$> ofRow row

def write (row : ProgressRow) : Statement Unit := do
  let tables ← Statement.writing .progress
  Statement.guarded
  Statement.save { tables with progress := tables.progress.put rowId row }

def get : Work StoreError (Option Cursor) :=
  .query label "get" (fun row => if row.isSome then 1 else 0) read

def update (cursor : Cursor) : Work StoreError Unit :=
  .query label "update" (fun _ => 1) do write (← toRow cursor)

end DecryptorNode.Store.Progress
