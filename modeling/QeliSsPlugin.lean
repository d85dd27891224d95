import QeliSsPlugin.Carrier.DeathLog
import QeliSsPlugin.Carrier.Handle
import QeliSsPlugin.Carrier.Ids
import QeliSsPlugin.Carrier.Reopen
import QeliSsPlugin.Cli.Deployment
import QeliSsPlugin.Client.Progress
import QeliSsPlugin.Handshake.Admission
import QeliSsPlugin.Handshake.Blame
import QeliSsPlugin.Handshake.EndToEnd
import QeliSsPlugin.Handshake.Password
import QeliSsPlugin.Handshake.RecordReader
import QeliSsPlugin.Net.Answering
import QeliSsPlugin.Net.Backpressure
import QeliSsPlugin.Net.Cleanup
import QeliSsPlugin.Net.Detection
import QeliSsPlugin.Net.Rest
import QeliSsPlugin.Server.Progress
