import DialServer.AppNames
import DialServer.Authorisation
import DialServer.Codecs
import DialServer.Concurrency
import DialServer.Cors
import DialServer.Decoding
import DialServer.Discovery
import DialServer.Extraction
import DialServer.HeaderCase
import DialServer.History
import DialServer.Isolation
import DialServer.Launchers
import DialServer.Locking
import DialServer.Matching
import DialServer.ParamLookup
import DialServer.ParseParams
import DialServer.Plugin
import DialServer.Refinement
import DialServer.Registry
import DialServer.Reload
import DialServer.Sending
import DialServer.Shutdown
import DialServer.Tray
