/-
The committed tool policies of the hosted connectors (`cloud/connector_presets.py`).

- `presets`: the table, its policies the JSON objects that the executor reads and hashes.
- `buildConnectorPreset`: one policy, with the allowed workflows filled in for n8n.
-/
import Rally.Core.Dict
import Rally.Core.Json

namespace Rally.Cloud

open Py

/-- a policy: for each tool a rule -/
abbrev ToolPolicy := List (String × Value)

/-! ## Rules -/

/-- a rule with constraints on single arguments, and sizes in KiB -/
def rule (risk : String) (arguments : List (String × Value)) (argumentKiB : Option ℤ) (resultKiB : ℤ) : Value :=
  .dict [("risk", .str risk), ("constraints", .dict (
    ("arguments", .dict arguments) ::
      (argumentKiB.toList.map fun n => ("max_argument_bytes", .int (n * 1024))) ++
      [("max_result_bytes", .int (resultKiB * 1024))]))]

/-- a rule that constrains sizes only -/
def sizedRule (argumentKiB resultKiB : ℤ) : Value :=
  .dict [("risk", .str "read"), ("constraints", .dict [
    ("max_argument_bytes", .int (argumentKiB * 1024)), ("max_result_bytes", .int (resultKiB * 1024))])]

/-- `_READ_SMALL` -/
def readSmall : Value := sizedRule 8 64

/-- `_READ_STANDARD` -/
def readStandard : Value := sizedRule 32 256

/-- an argument that must be there, a string of limited length -/
def required (maxLength : ℤ) : Value := .dict [("required", .bool true), ("max_length", .int maxLength)]

/-- an argument that must be one of the values -/
def requiredOf (values : List String) : Value :=
  .dict [("required", .bool true), ("allowed_values", .list (values.map .str))]

/-! ## The table -/

/-- `_PRESETS` -/
def presets : List ((String × String) × ToolPolicy) := [
  (("google-workspace", "read-minimal"), [
    ("gmail.list_drafts", readSmall), ("gmail.get_draft", readStandard), ("gmail.get_thread", readStandard),
    ("gmail.get_message", readStandard), ("gmail.search_threads", readStandard), ("gmail.list_labels", readSmall),
    ("drive.download_file_content", readStandard), ("drive.get_file_metadata", readSmall),
    ("drive.get_file_permissions", readSmall), ("drive.list_recent_files", readStandard),
    ("drive.read_file_content", readStandard), ("drive.search_files", readStandard),
    ("docs.read_doc", readStandard), ("sheets.get_values", readStandard), ("sheets.get_spreadsheet", readStandard),
    ("slides.read_presentation", readStandard), ("calendar.list_events", readStandard),
    ("calendar.get_event", readSmall), ("calendar.list_calendars", readSmall), ("calendar.suggest_time", readSmall),
    ("calendar.search_events", readStandard), ("chat.list_messages", readStandard),
    ("chat.search_messages", readStandard), ("chat.search_conversations", readStandard),
    ("people.search_directory_people", readStandard), ("people.search_contacts", readStandard),
    ("people.get_user_profile", readSmall)]),
  (("slack", "read-minimal"), [
    ("slack_search_public", readStandard), ("slack_search_channels", readStandard),
    ("slack_search_users", readStandard), ("slack_read_channel", readStandard), ("slack_read_thread", readStandard),
    ("slack_read_file", readStandard), ("slack_read_user_profile", readSmall),
    ("slack_list_channel_members", readStandard)]),
  (("github", "read-only"), [
    ("get_me", readSmall), ("get_file_contents", readStandard), ("list_branches", readStandard),
    ("list_commits", readStandard), ("list_releases", readStandard), ("list_tags", readStandard),
    ("issue_read", readStandard), ("pull_request_read", readStandard), ("search_code", readStandard),
    ("search_repositories", readStandard)]),
  (("salesforce", "sobject-reads"), [
    ("getObjectSchema", rule "read" [("object-name", .dict [("max_length", .int 255)])] (some 8) 256),
    ("soqlQuery", rule "read" [("query", required 10000)] (some 16) 256),
    ("find", rule "read" [("search", required 5000)] (some 8) 256), ("getUserInfo", readSmall),
    ("listRecentSobjectRecords", rule "read" [("sobject-name", required 255)] (some 8) 256),
    ("getRelatedRecords",
      rule "read" [("sobject-name", required 255), ("id", required 18), ("relationship-path", required 512)] (some 8) 256)]),
  (("cloudflare", "observability"), [
    ("query_worker_observability", readStandard), ("observability_keys", readSmall),
    ("observability_values", readSmall)]),
  (("stripe", "read-minimal"), [
    ("get_stripe_account_info", readSmall), ("search_stripe_documentation", readStandard),
    ("stripe_api_search", readSmall), ("stripe_api_details", readSmall)]),
  (("bigquery", "metadata-only"), [
    ("list_dataset_ids", rule "read" [("project_id", required 128)] none 128),
    ("get_dataset_info", rule "read" [("project_id", required 128), ("dataset_id", required 1024)] none 128),
    ("list_table_ids", rule "read" [("project_id", required 128), ("dataset_id", required 1024)] none 128),
    ("get_table_info",
      rule "read" [("project_id", required 128), ("dataset_id", required 1024), ("table_id", required 1024)] none 256)]),
  (("n8n", "workflow-bounded"), [
    ("get_workflow_details",
      rule "read" [("workflowId", requiredOf []), ("detailLevel", requiredOf ["execution"])] (some 32) 256),
    ("execute_workflow",
      rule "human_approval" [("workflowId", requiredOf []), ("executionMode", requiredOf ["production"])] (some 64) 32)]),
  (("atlassian", "read-minimal"), [
    ("atlassianUserInfo", readSmall), ("getAccessibleAtlassianResources", readSmall),
    ("searchAtlassian", rule "read" [("query", required 2000)] (some 16) 256),
    ("fetchAtlassian", rule "read" [("id", required 512)] (some 16) 256)]),
  (("hyperagent", "read-minimal"), [
    ("list_agents", readSmall), ("list_threads", readStandard),
    ("get_thread", rule "read" [("threadId", required 256)] (some 16) 256),
    ("list_pending_approvals", readStandard)])]

/-! ## Building a policy -/

/-- `_workflow_ids`; `none` for `ConnectorPresetError` -/
def presetWorkflowIds (values : Option (List String)) : Option (List String) := do
  let values ← values
  let normalized := (values.map strip).dedup.insertionSort (· ≤ ·)
  if normalized = [] ∨ "" ∈ normalized then none else some normalized

/-- `d[k₁]...[kₙ] = v` -/
def assign : List String → Value → Value → Value
  | [], v, _ => v
  | k :: path, v, .dict kvs => .dict (Dict.upsert kvs k fun old => assign path v (old.getD .none))
  | _ :: _, _, d => d

/-- `build_connector_preset`; `none` for `ConnectorPresetError`, of an unknown connector, preset or workflow list -/
def buildConnectorPreset (connectorId presetName : String) (allowedWorkflowIds : Option (List String)) :
    Option ToolPolicy := do
  let policy ← presets.lookup (connectorId, presetName)
  if (connectorId, presetName) = ("n8n", "workflow-bounded") then
    let ids ← presetWorkflowIds allowedWorkflowIds
    some (policy.map fun tool =>
      (tool.1, assign ["constraints", "arguments", "workflowId", "allowed_values"] (.list (ids.map .str)) tool.2))
  else some policy

example : (buildConnectorPreset "n8n" "workflow-bounded" (some [" a", "b", "a"])).bind (·.lookup "get_workflow_details") =
    some (rule "read" [("workflowId", requiredOf ["a", "b"]), ("detailLevel", requiredOf ["execution"])] (some 32) 256) := by
  decide

end Rally.Cloud
