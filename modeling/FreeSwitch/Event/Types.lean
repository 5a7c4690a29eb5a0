/-
**Event types and their names.**

`EventType` is `switch_event_types_t`, `eventNames` the table `EVENT_NAMES` in the same order, and
`nameEvent` the search of that table that the event socket and the JSON reader use.
-/

import FreeSwitch.Lib.CString

namespace FreeSwitch

open CString

/-- `switch_event_types_t`. -/
inductive EventType where
  | custom | clone | channelCreate | channelDestroy | channelState | channelCallstate
  | channelAnswer | channelHangup | channelHangupComplete | channelExecute | channelExecuteComplete
  | channelHold | channelUnhold | channelBridge | channelUnbridge | channelProgress
  | channelProgressMedia | channelOutgoing | channelPark | channelUnpark | channelApplication
  | channelOriginate | channelUuid | api | log | inboundChan | outboundChan | startup | shutdown
  | publish | unpublish | talk | notalk | sessionCrash | moduleLoad | moduleUnload | dtmf | message
  | presenceIn | notifyIn | presenceOut | presenceProbe | messageWaiting | messageQuery | roster
  | codec | backgroundJob | detectedSpeech | detectedTone | privateCommand | heartbeat | trap
  | addSchedule | delSchedule | exeSchedule | reSchedule | reloadxml | notify | sendMessage
  | recvMessage | requestParams | channelData | general | command | sessionHeartbeat
  | clientDisconnected | serverDisconnected | sendInfo | recvInfo | recvRtcpMessage | callSecure
  | nat | recordStart | recordStop | playbackStart | playbackStop | callUpdate | failure
  | socketData | mediaBugStart | mediaBugStop | conferenceDataQuery | conferenceData | callSetupReq
  | callSetupResult | callDetail | deviceState | all
  deriving DecidableEq, Repr

/-- `EVENT_NAMES`, beside the types its index stands for. -/
def eventNames : List (EventType × String) := [
  (.custom, "CUSTOM"), (.clone, "CLONE"), (.channelCreate, "CHANNEL_CREATE"),
  (.channelDestroy, "CHANNEL_DESTROY"), (.channelState, "CHANNEL_STATE"),
  (.channelCallstate, "CHANNEL_CALLSTATE"), (.channelAnswer, "CHANNEL_ANSWER"),
  (.channelHangup, "CHANNEL_HANGUP"), (.channelHangupComplete, "CHANNEL_HANGUP_COMPLETE"),
  (.channelExecute, "CHANNEL_EXECUTE"), (.channelExecuteComplete, "CHANNEL_EXECUTE_COMPLETE"),
  (.channelHold, "CHANNEL_HOLD"), (.channelUnhold, "CHANNEL_UNHOLD"),
  (.channelBridge, "CHANNEL_BRIDGE"), (.channelUnbridge, "CHANNEL_UNBRIDGE"),
  (.channelProgress, "CHANNEL_PROGRESS"), (.channelProgressMedia, "CHANNEL_PROGRESS_MEDIA"),
  (.channelOutgoing, "CHANNEL_OUTGOING"), (.channelPark, "CHANNEL_PARK"),
  (.channelUnpark, "CHANNEL_UNPARK"), (.channelApplication, "CHANNEL_APPLICATION"),
  (.channelOriginate, "CHANNEL_ORIGINATE"), (.channelUuid, "CHANNEL_UUID"), (.api, "API"),
  (.log, "LOG"), (.inboundChan, "INBOUND_CHAN"), (.outboundChan, "OUTBOUND_CHAN"),
  (.startup, "STARTUP"), (.shutdown, "SHUTDOWN"), (.publish, "PUBLISH"), (.unpublish, "UNPUBLISH"),
  (.talk, "TALK"), (.notalk, "NOTALK"), (.sessionCrash, "SESSION_CRASH"),
  (.moduleLoad, "MODULE_LOAD"), (.moduleUnload, "MODULE_UNLOAD"), (.dtmf, "DTMF"),
  (.message, "MESSAGE"), (.presenceIn, "PRESENCE_IN"), (.notifyIn, "NOTIFY_IN"),
  (.presenceOut, "PRESENCE_OUT"), (.presenceProbe, "PRESENCE_PROBE"),
  (.messageWaiting, "MESSAGE_WAITING"), (.messageQuery, "MESSAGE_QUERY"), (.roster, "ROSTER"),
  (.codec, "CODEC"), (.backgroundJob, "BACKGROUND_JOB"), (.detectedSpeech, "DETECTED_SPEECH"),
  (.detectedTone, "DETECTED_TONE"), (.privateCommand, "PRIVATE_COMMAND"),
  (.heartbeat, "HEARTBEAT"), (.trap, "TRAP"), (.addSchedule, "ADD_SCHEDULE"),
  (.delSchedule, "DEL_SCHEDULE"), (.exeSchedule, "EXE_SCHEDULE"), (.reSchedule, "RE_SCHEDULE"),
  (.reloadxml, "RELOADXML"), (.notify, "NOTIFY"), (.sendMessage, "SEND_MESSAGE"),
  (.recvMessage, "RECV_MESSAGE"), (.requestParams, "REQUEST_PARAMS"),
  (.channelData, "CHANNEL_DATA"), (.general, "GENERAL"), (.command, "COMMAND"),
  (.sessionHeartbeat, "SESSION_HEARTBEAT"), (.clientDisconnected, "CLIENT_DISCONNECTED"),
  (.serverDisconnected, "SERVER_DISCONNECTED"), (.sendInfo, "SEND_INFO"), (.recvInfo, "RECV_INFO"),
  (.recvRtcpMessage, "RECV_RTCP_MESSAGE"), (.callSecure, "CALL_SECURE"), (.nat, "NAT"),
  (.recordStart, "RECORD_START"), (.recordStop, "RECORD_STOP"), (.playbackStart, "PLAYBACK_START"),
  (.playbackStop, "PLAYBACK_STOP"), (.callUpdate, "CALL_UPDATE"), (.failure, "FAILURE"),
  (.socketData, "SOCKET_DATA"), (.mediaBugStart, "MEDIA_BUG_START"),
  (.mediaBugStop, "MEDIA_BUG_STOP"), (.conferenceDataQuery, "CONFERENCE_DATA_QUERY"),
  (.conferenceData, "CONFERENCE_DATA"), (.callSetupReq, "CALL_SETUP_REQ"),
  (.callSetupResult, "CALL_SETUP_RESULT"), (.callDetail, "CALL_DETAIL"),
  (.deviceState, "DEVICE_STATE"), (.all, "ALL")]

/-- `switch_event_name`: the entry of the table at the type. -/
def eventName (type : EventType) : Text :=
  match eventNames.find? fun entry => entry.1 = type with
  | some entry => entry.2.toList
  | none => []

/-- `switch_name_event`: the first type whose name is the text, or the text behind a 13-byte
`SWITCH_EVENT_`, up to case. -/
def nameEvent (name : Text) : Option EventType :=
  (eventNames.find? fun entry =>
    (13 < name.length && ciEq (name.drop 13) entry.2.toList) || ciEq name entry.2.toList).map
      Prod.fst

end FreeSwitch
