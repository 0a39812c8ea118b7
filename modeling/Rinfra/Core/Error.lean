/-!
# Errors

`AppError` as the callers see it: its code and its message. The wrapped source
error is only displayed, so it is left out.
-/

namespace Rinfra

inductive ErrorCode
  | pluginAlreadyRegistered | pluginNotFound | pluginInitFailed | pluginShutdownFailed
  | pluginShutdownTimeout
  | eventSendFailed
  | codecEncodeFailed | codecDecodeFailed | codecNotFound
  | configFileMissing | configParseFailed | configValidationFailed
  | logInitFailed
  | serverBindFailed | serverStartFailed
  | storeConnectionFailed | storeQueryFailed | storeMigrationFailed | storeNotFound
  | cacheGetFailed | cacheSetFailed | cacheDeleteFailed | cacheConnectionFailed
  | rateLimitExceeded
  | cryptoEncryptFailed | cryptoDecryptFailed | cryptoKeyNotFound
  | mqPublishFailed | mqSubscribeFailed
  | wsUpgradeFailed | wsSendFailed
  | rpcServerFailed | rpcServiceError
  | scriptExecFailed | scriptLoadFailed | scriptTimeout
  | clusterNodeNotFound | clusterRegisterFailed | clusterMainUnreachable
  | clusterHeartbeatFailed | clusterAuthFailed
  | authTokenMissing | authTokenInvalid | authTokenExpired
  | timerScheduleFailed | timerTaskNotFound | timerInvalidSchedule
  | fileNotFound | fileReadFailed | fileWriteFailed | fileDeleteFailed
  | httpRequestFailed | httpTimeout
  | lockAcquireFailed | lockConflict
  | configReloadFailed
  | circuitBreakerOpen
  | auditLogFailed
  | i18nLoadFailed
  | internal | invalidArgument
  deriving DecidableEq, Repr

def ErrorCode.asStr : ErrorCode → String
  | .pluginAlreadyRegistered => "PLUGIN_ALREADY_REGISTERED"
  | .pluginNotFound => "PLUGIN_NOT_FOUND"
  | .pluginInitFailed => "PLUGIN_INIT_FAILED"
  | .pluginShutdownFailed => "PLUGIN_SHUTDOWN_FAILED"
  | .pluginShutdownTimeout => "PLUGIN_SHUTDOWN_TIMEOUT"
  | .eventSendFailed => "EVENT_SEND_FAILED"
  | .codecEncodeFailed => "CODEC_ENCODE_FAILED"
  | .codecDecodeFailed => "CODEC_DECODE_FAILED"
  | .codecNotFound => "CODEC_NOT_FOUND"
  | .configFileMissing => "CONFIG_FILE_MISSING"
  | .configParseFailed => "CONFIG_PARSE_FAILED"
  | .configValidationFailed => "CONFIG_VALIDATION_FAILED"
  | .logInitFailed => "LOG_INIT_FAILED"
  | .serverBindFailed => "SERVER_BIND_FAILED"
  | .serverStartFailed => "SERVER_START_FAILED"
  | .storeConnectionFailed => "STORE_CONNECTION_FAILED"
  | .storeQueryFailed => "STORE_QUERY_FAILED"
  | .storeMigrationFailed => "STORE_MIGRATION_FAILED"
  | .storeNotFound => "STORE_NOT_FOUND"
  | .cacheGetFailed => "CACHE_GET_FAILED"
  | .cacheSetFailed => "CACHE_SET_FAILED"
  | .cacheDeleteFailed => "CACHE_DELETE_FAILED"
  | .cacheConnectionFailed => "CACHE_CONNECTION_FAILED"
  | .rateLimitExceeded => "RATE_LIMIT_EXCEEDED"
  | .cryptoEncryptFailed => "CRYPTO_ENCRYPT_FAILED"
  | .cryptoDecryptFailed => "CRYPTO_DECRYPT_FAILED"
  | .cryptoKeyNotFound => "CRYPTO_KEY_NOT_FOUND"
  | .mqPublishFailed => "MQ_PUBLISH_FAILED"
  | .mqSubscribeFailed => "MQ_SUBSCRIBE_FAILED"
  | .wsUpgradeFailed => "WS_UPGRADE_FAILED"
  | .wsSendFailed => "WS_SEND_FAILED"
  | .rpcServerFailed => "RPC_SERVER_FAILED"
  | .rpcServiceError => "RPC_SERVICE_ERROR"
  | .scriptExecFailed => "SCRIPT_EXEC_FAILED"
  | .scriptLoadFailed => "SCRIPT_LOAD_FAILED"
  | .scriptTimeout => "SCRIPT_TIMEOUT"
  | .clusterNodeNotFound => "CLUSTER_NODE_NOT_FOUND"
  | .clusterRegisterFailed => "CLUSTER_REGISTER_FAILED"
  | .clusterMainUnreachable => "CLUSTER_MAIN_UNREACHABLE"
  | .clusterHeartbeatFailed => "CLUSTER_HEARTBEAT_FAILED"
  | .clusterAuthFailed => "CLUSTER_AUTH_FAILED"
  | .authTokenMissing => "AUTH_TOKEN_MISSING"
  | .authTokenInvalid => "AUTH_TOKEN_INVALID"
  | .authTokenExpired => "AUTH_TOKEN_EXPIRED"
  | .timerScheduleFailed => "TIMER_SCHEDULE_FAILED"
  | .timerTaskNotFound => "TIMER_TASK_NOT_FOUND"
  | .timerInvalidSchedule => "TIMER_INVALID_SCHEDULE"
  | .fileNotFound => "FILE_NOT_FOUND"
  | .fileReadFailed => "FILE_READ_FAILED"
  | .fileWriteFailed => "FILE_WRITE_FAILED"
  | .fileDeleteFailed => "FILE_DELETE_FAILED"
  | .httpRequestFailed => "HTTP_REQUEST_FAILED"
  | .httpTimeout => "HTTP_TIMEOUT"
  | .lockAcquireFailed => "LOCK_ACQUIRE_FAILED"
  | .lockConflict => "LOCK_CONFLICT"
  | .configReloadFailed => "CONFIG_RELOAD_FAILED"
  | .circuitBreakerOpen => "CIRCUIT_BREAKER_OPEN"
  | .auditLogFailed => "AUDIT_LOG_FAILED"
  | .i18nLoadFailed => "I18N_LOAD_FAILED"
  | .internal => "INTERNAL"
  | .invalidArgument => "INVALID_ARGUMENT"

def ErrorCode.httpStatus : ErrorCode → Nat
  | .codecDecodeFailed | .configParseFailed | .configValidationFailed | .wsUpgradeFailed
  | .scriptLoadFailed | .timerInvalidSchedule | .invalidArgument => 400
  | .clusterAuthFailed | .authTokenMissing | .authTokenInvalid | .authTokenExpired => 401
  | .pluginNotFound | .codecNotFound | .configFileMissing | .storeNotFound | .cryptoKeyNotFound
  | .clusterNodeNotFound | .timerTaskNotFound | .fileNotFound => 404
  | .pluginAlreadyRegistered | .lockConflict => 409
  | .rateLimitExceeded => 429
  | .httpRequestFailed => 502
  | .clusterMainUnreachable | .circuitBreakerOpen => 503
  | .pluginShutdownTimeout | .scriptTimeout | .httpTimeout => 504
  | .pluginInitFailed | .pluginShutdownFailed | .eventSendFailed | .codecEncodeFailed
  | .logInitFailed | .serverBindFailed | .serverStartFailed | .storeConnectionFailed
  | .storeQueryFailed | .storeMigrationFailed | .cacheGetFailed | .cacheSetFailed
  | .cacheDeleteFailed | .cacheConnectionFailed | .cryptoEncryptFailed | .cryptoDecryptFailed
  | .mqPublishFailed | .mqSubscribeFailed | .wsSendFailed | .rpcServerFailed | .rpcServiceError
  | .scriptExecFailed | .clusterRegisterFailed | .clusterHeartbeatFailed | .timerScheduleFailed
  | .fileReadFailed | .fileWriteFailed | .fileDeleteFailed | .lockAcquireFailed
  | .configReloadFailed | .auditLogFailed | .i18nLoadFailed | .internal => 500

structure AppError where
  code : ErrorCode
  message : String
  deriving DecidableEq, Repr

def AppError.display (e : AppError) : String := s!"[{e.code.asStr}] {e.message}"

/-- How a call that returns `Result<_, AppError>` ends, a panic included. -/
inductive Outcome (α : Type)
  | ok (a : α)
  | err (e : AppError)
  | panicked
  deriving DecidableEq, Repr

end Rinfra
