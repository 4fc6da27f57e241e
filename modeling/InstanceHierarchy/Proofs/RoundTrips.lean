import InstanceHierarchy.Proofs.RecordFormats
import InstanceHierarchy.Record.Code
import InstanceHierarchy.Record.Hierarchy
import InstanceHierarchy.Settings.Basic

/-!
# Records and settings are read as they were written

Each type of records has its format: the cells of a record in their declared order, of which some
may be lacking, and the ranges of its numbers.  Whether an encoder and a decoder fit together is
settled field by field, so a new field needs one more cell and one more step in each of the three
lists below.  Nothing is said here about texts: a value is what a text was read as.
-/

namespace InstanceHierarchy

open Shape

/-! ## Stored records -/

def Node.cells (n : Node) : List Cell :=
  [.exact "id" (.str n.id), .exact "label" (.str n.label), .table "properties" n.properties]

def Node.format : Format Node where
  record := "NodeRecord"
  shape := Node.shape
  write := Node.toJson
  cells := Node.cells
  Fits _ := True
  nodup_names n := by
    show ["id", "label", "properties"].Nodup
    decide
  writes n := ⟨_, rfl, .put _ (.put _ (.put _ .nil))⟩
  reads n _ := (((Reads.text "id" n.id).map Node.mk).seq (.text "label" n.label)).seq
    (.table "properties" n.properties)
  ensures := .any _

def Edge.cells (e : Edge) : List Cell :=
  [.exact "id" (.str e.id), .exact "label" (.str e.label), .exact "out_v" (.str e.source),
    .exact "in_v" (.str e.target)]

def Edge.format : Format Edge where
  record := "EdgeRecord"
  shape := Edge.shape
  write := Edge.toJson
  cells := Edge.cells
  Fits _ := True
  nodup_names e := by
    show ["id", "label", "out_v", "in_v"].Nodup
    decide
  writes e := ⟨_, rfl, .put _ (.put _ (.put _ (.put _ .nil)))⟩
  reads e _ := ((((Reads.text "id" e.id).map Edge.mk).seq (.text "label" e.label)).seq
    (.text "out_v" e.source)).seq (.text "in_v" e.target)
  ensures := .any _

/-! ## Nodes of hierarchies -/

def GenericNode.cells (n : GenericNode) : List Cell :=
  [.exact "id" (.str n.id), .exact "code" (.str n.code), .exact "label" (.str n.label),
    .exact "code_list_id" (.str n.codeList)]

def GenericNode.format : Format GenericNode where
  record := "GenericNode"
  shape := GenericNode.shape
  write := GenericNode.toJson
  cells := GenericNode.cells
  Fits _ := True
  nodup_names n := by
    show ["id", "code", "label", "code_list_id"].Nodup
    decide
  writes n := ⟨_, rfl, .put _ (.put _ (.put _ (.put _ .nil)))⟩
  reads n _ := ((((Reads.text "id" n.id).map GenericNode.mk).seq (.text "code" n.code)).seq
    (.text "label" n.label)).seq (.text "code_list_id" n.codeList)
  ensures := .any _

def CloneNode.cells (n : CloneNode) : List Cell :=
  [.exact "id" (.str n.id), .exact "code" (.str n.code), .exact "label" (.str n.label),
    .exact "code_list_id" (.str n.codeList), .exact "has_data" (.bool n.hasData),
    .exact "number_of_children" (.int n.numberOfChildren), .place "order" n.order]

/-- The numbers of a node are within their range. -/
def CloneNode.Fits (n : CloneNode) : Prop := Fits64 (some n.numberOfChildren) ∧ Fits64 n.order

def CloneNode.format : Format CloneNode where
  record := "CloneNode"
  shape := CloneNode.shape
  write := CloneNode.toJson
  cells := CloneNode.cells
  Fits := CloneNode.Fits
  nodup_names n := by
    show ["id", "code", "label", "code_list_id", "has_data", "number_of_children", "order"].Nodup
    decide
  writes n := ⟨_, rfl, .put _ (.put _ (.put _ (.put _ (.put _ (.put _ (.put _ .nil))))))⟩
  reads n h := (((((((Reads.text "id" n.id).map CloneNode.mk).seq (.text "code" n.code)).seq
    (.text "label" n.label)).seq (.text "code_list_id" n.codeList)).seq
    (.bool "has_data" n.hasData)).seq (.int64 "number_of_children" h.1)).seq
    (.place "order" none h.2)
  ensures := .seq (.seq (.seq (.seq (.seq (.seq (.map
    (fun _ _ _ _ _ _ _ _ _ _ _ hchildren _ horder => ⟨hchildren, horder⟩) (.any _)) (.any _))
    (.any _)) (.any _)) (.any _)) (.int64 _)) (.place _ fun _ hn => nomatch hn)

def HierarchyKey.cells (k : HierarchyKey) : List Cell :=
  [.exact "instance_id" (.str k.instanceId), .exact "dimension_name" (.str k.dimension)]

def HierarchyKey.format : Format HierarchyKey where
  record := "HierarchyKey"
  shape := HierarchyKey.shape
  write := HierarchyKey.toJson
  cells := HierarchyKey.cells
  Fits _ := True
  nodup_names k := by
    show ["instance_id", "dimension_name"].Nodup
    decide
  writes k := ⟨_, rfl, .put _ (.put _ .nil)⟩
  reads k _ := ((Reads.text "instance_id" k.instanceId).map HierarchyKey.mk).seq
    (.text "dimension_name" k.dimension)
  ensures := .any _

/-! ## Codes -/

def IdCode.cells (r : IdCode) : List Cell :=
  [.exact "node_id" (.str r.id), .exact "node_code" (.str r.code)]

def IdCode.format : Format IdCode where
  record := "NodeIdCode"
  shape := IdCode.shape
  write := IdCode.toJson
  cells := IdCode.cells
  Fits _ := True
  nodup_names r := by
    show ["node_id", "node_code"].Nodup
    decide
  writes r := ⟨_, rfl, .put _ (.put _ .nil)⟩
  reads r _ := ((Reads.text "node_id" r.id).map IdCode.mk).seq (.text "node_code" r.code)
  ensures := .any _

def CodeEntry.cells (e : CodeEntry) : List Cell :=
  [.exact "code" (.str e.code), .exact "label" (.str e.label), .place "order" e.order]

/-- The place is within its range. -/
def CodeEntry.Fits (e : CodeEntry) : Prop := Fits64 e.order

def CodeEntry.format : Format CodeEntry where
  record := "CodeEntry"
  shape := CodeEntry.shape
  write := CodeEntry.toJson
  cells := CodeEntry.cells
  Fits := CodeEntry.Fits
  nodup_names e := by
    show ["code", "label", "order"].Nodup
    decide
  writes e := by
    obtain ⟨code, label, order⟩ := e
    cases order with
    | none => exact ⟨_, rfl, .put _ (.put _ (.leave _ rfl .nil))⟩
    | some n => exact ⟨_, rfl, .put _ (.put _ (.put _ .nil))⟩
  reads e h := (((Reads.text "code" e.code).map CodeEntry.mk).seq (.text "label" e.label)).seq
    (.place "order" (some none) h)
  ensures := .seq (.seq (.map (fun _ _ _ _ _ horder => horder) (.any _)) (.any _))
    (.place _ fun _ hn => (Option.some.inj hn).symm)

def CodeOrder.cells (e : CodeOrder) : List Cell :=
  [.exact "code" (.str e.code), .place "order" e.order]

/-- The place is within its range. -/
def CodeOrder.Fits (e : CodeOrder) : Prop := Fits64 e.order

def CodeOrder.format : Format CodeOrder where
  record := "CodeOrder"
  shape := CodeOrder.shape
  write := CodeOrder.toJson
  cells := CodeOrder.cells
  Fits := CodeOrder.Fits
  nodup_names e := by
    show ["code", "order"].Nodup
    decide
  writes e := ⟨_, rfl, .put _ (.put _ .nil)⟩
  reads e h := ((Reads.text "code" e.code).map CodeOrder.mk).seq (.place "order" (some none) h)
  ensures := .seq (.map (fun _ _ _ horder => horder) (.any _))
    (.place _ fun _ hn => (Option.some.inj hn).symm)

/-! ## Elements and their views -/

def Element.cells (e : Element) : List Cell :=
  [.exact "id" (.str e.id), .exact "label" (.str e.label),
    .exact "no_of_children" (.int e.numberOfChildren), .exact "has_data" (.bool e.hasData),
    .place "order" e.order]

/-- The numbers of an element are within their range. -/
def Element.Fits (e : Element) : Prop := Fits64 (some e.numberOfChildren) ∧ Fits64 e.order

def Element.format : Format Element where
  record := "HierarchyElement"
  shape := Element.shape
  write := Element.toJson
  cells := Element.cells
  Fits := Element.Fits
  nodup_names e := by
    show ["id", "label", "no_of_children", "has_data", "order"].Nodup
    decide
  writes e := by
    obtain ⟨id, label, numberOfChildren, hasData, order⟩ := e
    cases order with
    | none => exact ⟨_, rfl, .put _ (.put _ (.put _ (.put _ (.leave _ rfl .nil))))⟩
    | some n => exact ⟨_, rfl, .put _ (.put _ (.put _ (.put _ (.put _ .nil))))⟩
  reads e h := (((((Reads.text "id" e.id).map Element.mk).seq (.text "label" e.label)).seq
    (.int64 "no_of_children" h.1)).seq (.bool "has_data" e.hasData)).seq (.place "order" none h.2)
  ensures := .seq (.seq (.seq (.seq (.map
    (fun _ _ _ _ _ hchildren _ _ _ horder => ⟨hchildren, horder⟩) (.any _)) (.any _)) (.int64 _))
    (.any _)) (.place _ fun _ hn => nomatch hn)

def ElementView.cells (v : ElementView) : List Cell :=
  [.exact "id" (.str v.id), .exact "label" (.str v.label),
    .exact "no_of_children" (.int v.numberOfChildren), .exact "has_data" (.bool v.hasData),
    Element.format.listCell "children" v.children False,
    Element.format.listCell "breadcrumbs" v.breadcrumbs (v.breadcrumbs = [])]

/-- The numbers of a view, and of the elements in it, are within their range. -/
structure ElementView.Fits (v : ElementView) : Prop where
  numberOfChildren : Fits64 (some v.numberOfChildren)
  children : ∀ e ∈ v.children, e.Fits
  breadcrumbs : ∀ e ∈ v.breadcrumbs, e.Fits

def ElementView.format : Format ElementView where
  record := "HierarchyResponse"
  shape := ElementView.shape
  write := ElementView.toJson
  cells := ElementView.cells
  Fits := ElementView.Fits
  nodup_names v := by
    show ["id", "label", "no_of_children", "has_data", "children", "breadcrumbs"].Nodup
    decide
  writes v := by
    obtain ⟨id, label, numberOfChildren, hasData, children, breadcrumbs⟩ := v
    cases breadcrumbs with
    | nil => exact ⟨_, rfl, .put _ (.put _ (.put _ (.put _ (.put _ (.leave _ rfl .nil)))))⟩
    | cons e rest => exact ⟨_, rfl, .put _ (.put _ (.put _ (.put _ (.put _ (.put _ .nil)))))⟩
  reads v h := ((((((Reads.text "id" v.id).map ElementView.mk).seq (.text "label" v.label)).seq
    (.int64 "no_of_children" h.numberOfChildren)).seq (.bool "has_data" v.hasData)).seq
    (Element.format.reads_listCell "children" h.children none False.elim)).seq
    (Element.format.reads_listCell "breadcrumbs" h.breadcrumbs (some []) fun hnone => by rw [hnone])
  ensures := .seq (.seq (.seq (.seq (.seq (.map
    (fun _ _ _ _ _ hnumber _ _ _ hchildren _ hcrumbs => ⟨hnumber, hchildren, hcrumbs⟩) (.any _))
    (.any _)) (.int64 _)) (.any _)) (.required _ fun _ _ h => Element.format.ensures_list h))
    (.field _ (fun _ _ h => Element.format.ensures_list h)
      (fun _ hnone => by cases hnone; exact fun _ he => absurd he List.not_mem_nil)
      (fun _ hcut => by cases hcut; exact fun _ he => absurd he List.not_mem_nil))

/-! ## Settings -/

def BatchSettings.cells (s : BatchSettings) : List Cell :=
  [.exact "reader_batch_size" (.int s.readerBatchSize),
    .exact "writer_batch_size" (.int s.writerBatchSize), .exact "max_workers" (.int s.maxWorkers)]

/-- The limits are sizes. -/
structure BatchSettings.Fits (s : BatchSettings) : Prop where
  reader : s.readerBatchSize ≤ Limit.nat64Max
  writer : s.writerBatchSize ≤ Limit.nat64Max
  workers : s.maxWorkers ≤ Limit.nat64Max

def BatchSettings.format : Format BatchSettings where
  record := "BatchConfig"
  shape := BatchSettings.shape
  write := BatchSettings.toJson
  cells := BatchSettings.cells
  Fits := BatchSettings.Fits
  nodup_names s := by
    show ["reader_batch_size", "writer_batch_size", "max_workers"].Nodup
    decide
  writes s := ⟨_, rfl, .put _ (.put _ (.put _ .nil))⟩
  reads s h := (((Reads.natural "reader_batch_size" _ h.reader).map BatchSettings.mk).seq
    (.natural "writer_batch_size" _ h.writer)).seq (.natural "max_workers" _ h.workers)
  ensures := .seq (.seq (.map (fun _ hreader _ hwriter _ hworkers => ⟨hreader, hwriter, hworkers⟩)
    (.natural _ _ _)) (.natural _ _ _)) (.natural _ _ _)

def RetrySettings.cells (s : RetrySettings) : List Cell :=
  [.exact "max_attempts" (.int s.maxAttempts), .exact "backoff_ms" (.int s.backoff)]

/-- The attempts are counted in 32 bits, and the first pause is given in 64. -/
structure RetrySettings.Fits (s : RetrySettings) : Prop where
  attempts : s.maxAttempts ≤ Limit.nat32Max
  backoff : s.backoff ≤ Limit.nat64Max

def RetrySettings.format : Format RetrySettings where
  record := "RetryConfig"
  shape := RetrySettings.shape
  write := RetrySettings.toJson
  cells := RetrySettings.cells
  Fits := RetrySettings.Fits
  nodup_names s := by
    show ["max_attempts", "backoff_ms"].Nodup
    decide
  writes s := ⟨_, rfl, .put _ (.put _ .nil)⟩
  reads s h := ((Reads.natural "max_attempts" _ h.attempts).map RetrySettings.mk).seq
    (.natural "backoff_ms" _ h.backoff)
  ensures := .seq (.map (fun _ hattempts _ hbackoff => ⟨hattempts, hbackoff⟩) (.natural _ _ _))
    (.natural _ _ _)

def DemoSettings.cells (s : DemoSettings) : List Cell :=
  [.exact "instance_id" (.str s.instanceId), .exact "dimension_name" (.str s.dimension),
    .exact "code_list_id" (.str s.codeList)]

def DemoSettings.format : Format DemoSettings where
  record := "DemoConfig"
  shape := DemoSettings.shape
  write := DemoSettings.toJson
  cells := DemoSettings.cells
  Fits _ := True
  nodup_names s := by
    show ["instance_id", "dimension_name", "code_list_id"].Nodup
    decide
  writes s := ⟨_, rfl, .put _ (.put _ (.put _ .nil))⟩
  reads s _ := (((Reads.text "instance_id" s.instanceId).map DemoSettings.mk).seq
    (.text "dimension_name" s.dimension)).seq (.text "code_list_id" s.codeList)
  ensures := .any _

def Settings.cells (s : Settings) : List Cell :=
  [.exact "backend" (.str s.backend.name), BatchSettings.format.cell "batch" s.batch,
    RetrySettings.format.cell "retry" s.retry, DemoSettings.format.cell "demo" s.demo]

/-- All limits are within their ranges. -/
structure Settings.Fits (s : Settings) : Prop where
  batch : s.batch.Fits
  retry : s.retry.Fits

/-- A backend is read by its name. -/
theorem BackendKind.reads (k : BackendKind) :
    (Shape.required "backend" BackendKind.ofJson).Reads k [.exact "backend" (.str k.name)] := by
  refine .field none (.exact "backend" (.str k.name)) ?_ False.elim
  rintro _ rfl
  cases k <;> rfl

def Settings.format : Format Settings where
  record := "AppConfig"
  shape := Settings.shape
  write := Settings.toJson
  cells := Settings.cells
  Fits := Settings.Fits
  nodup_names s := by
    show ["backend", "batch", "retry", "demo"].Nodup
    decide
  writes s := ⟨_, rfl, .put _ (.put _ (.put _ (.put _ .nil)))⟩
  reads s h := (((s.backend.reads.map Settings.mk).seq
    (BatchSettings.format.reads_cell "batch" h.batch)).seq
    (RetrySettings.format.reads_cell "retry" h.retry)).seq
    (DemoSettings.format.reads_cell "demo" trivial)
  ensures := .seq (.seq (.seq (.map (fun _ _ _ hbatch _ hretry _ _ => ⟨hbatch, hretry⟩) (.any _))
    (.required _ fun _ _ h => BatchSettings.format.fits_of_read h))
    (.required _ fun _ _ h => RetrySettings.format.fits_of_read h)) (.any _)

/-- All records and all settings are read as they were written, be it that unknown fields were
added, that fields came in another order, or that lists of all fields were written. -/
theorem written_is_read :
    RoundTrips Node.ofJson Node.toJson Node.cells (fun _ => True) ∧
    RoundTrips Edge.ofJson Edge.toJson Edge.cells (fun _ => True) ∧
    RoundTrips GenericNode.ofJson GenericNode.toJson GenericNode.cells (fun _ => True) ∧
    RoundTrips CloneNode.ofJson CloneNode.toJson CloneNode.cells CloneNode.Fits ∧
    RoundTrips IdCode.ofJson IdCode.toJson IdCode.cells (fun _ => True) ∧
    RoundTrips CodeEntry.ofJson CodeEntry.toJson CodeEntry.cells CodeEntry.Fits ∧
    RoundTrips CodeOrder.ofJson CodeOrder.toJson CodeOrder.cells CodeOrder.Fits ∧
    RoundTrips Element.ofJson Element.toJson Element.cells Element.Fits ∧
    RoundTrips ElementView.ofJson ElementView.toJson ElementView.cells ElementView.Fits ∧
    RoundTrips HierarchyKey.ofJson HierarchyKey.toJson HierarchyKey.cells (fun _ => True) ∧
    RoundTrips Settings.ofJson Settings.toJson Settings.cells Settings.Fits :=
  ⟨Node.format.roundTrips, Edge.format.roundTrips, GenericNode.format.roundTrips,
    CloneNode.format.roundTrips, IdCode.format.roundTrips, CodeEntry.format.roundTrips,
    CodeOrder.format.roundTrips, Element.format.roundTrips, ElementView.format.roundTrips,
    HierarchyKey.format.roundTrips, Settings.format.roundTrips⟩

end InstanceHierarchy
